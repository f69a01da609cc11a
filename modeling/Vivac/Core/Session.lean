import Vivac.Core.Geo
import Vivac.Lib.Json
import Vivac.Models.Database
import Vivac.Models.Schemas

/-!
# Sessions

A request, a job or a script is a program over the commands of one database
session and the cache. `Settings` are the settings the code reads, `Backend` the
functions it calls that are not in the repository.
-/

set_option autoImplicit false

namespace Vivac

open Lib

/-- The settings the modelled code reads. -/
structure Settings where
  /-- `REDIS_URL` is set, so there is a client. -/
  redisUrl : Bool
  exploreRequireCoordinates : Bool

/-- Base64, JSON and ISO texts, `str` of a JSON value, SHA-256, Unicode's lower case and
printable characters, PostgreSQL's full-text search, its remaining reasons to refuse a row (the
text of the error), the storage's URLs, and `pg_dump` with the upload of the dump. -/
structure Backend where
  b64encode : String → String
  b64decode : String → Option String
  jsonDumps : Json → String
  jsonLoads : String → Option Json
  jsonStr : Json → String
  isoformat : Timestamp → String
  fromisoformat : String → Option Timestamp
  sha256 : String → String
  lower : String → String
  isPrintable : Char → Bool
  searchScore : Spot → String → ℚ
  searchMatch : Spot → String → Bool
  refusesSpot : Spot → Option String
  refusesBusinessInfo : SpotBusinessInfo → Option String
  resolveUrl : String → Bool → String
  dumpDatabase : Timestamp → Except Exc (String × ℕ)

/-- `scalar_one_or_none()`. -/
def scalarOneOrNone {α : Type} : List α → Except Exc (Option α)
  | [] => .ok none
  | [a] => .ok (some a)
  | _ => .error (.database "MultipleResultsFound"
      "Multiple rows were found when one or none was required")

abbrev Command := Cmd Db RowKey Change Body Exc

/-- A program of the application. -/
abbrev App (α : Type) := Prog Exc Command α

abbrev Statement (R : Type) := Stmt Db RowKey Change Exc R

/-- The shared state of the sessions `ι`. -/
abbrev State (ι : Type) := World ι Db RowKey Change Body

namespace App

variable {α R : Type}

/-- `session.execute(stmt)`. -/
def execute (st : Statement R) : App R := .perform (.sql st)

/-- A `SELECT`. -/
def select (f : Db → R) : App R := execute (Stmt.read f)

def commit : App Unit := .perform .commit

/-- `session.begin_nested()`. -/
def beginNested : App Unit := .perform .savepoint

/-- `sp.commit()` of the innermost savepoint. -/
def releaseNested : App Unit := .perform .release

/-- `sp.rollback()` of the innermost savepoint. -/
def rollbackNested : App Unit := .perform .rollbackTo

/-- `try: p  except Exception as exc: h exc`. -/
def tryExcept (p : App α) (h : Exc → App α) : App α :=
  p.tryCatch fun e => if e.isException then h e else .raise e

/-- `if c: p`. -/
def whenever (c : Bool) (p : App Unit) : App Unit := if c then p else .ret ()

/-- `for x in xs: f x`. -/
def forEach {β : Type} (f : β → App Unit) : List β → App Unit
  | [] => .ret ()
  | x :: xs => (f x).bind fun _ => forEach f xs

/-- Leaving `async with AsyncSessionLocal() as session`: what is not committed is
rolled back. -/
def closeSession (r : Except Exc α) : App α :=
  (Prog.perform .rollback : App Unit).bind fun _ => Prog.ofExcept r

/-- `async with AsyncSessionLocal() as session: p`. -/
def withSession (p : App α) : App α := p.attempt.bind closeSession

end App

end Vivac
