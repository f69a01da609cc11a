import Vivac.Core.Session
import Mathlib.Data.List.Sort

/-!
# The cache

Bodies are stored under keys that carry a version; raising the version makes the
older keys unreachable. The list and map bodies share one version, every detail
body has its own.

Without a client every function is a no-op, and an exception of a Redis command
counts as a miss.
-/

set_option autoImplicit false

namespace Vivac

open Lib App

/-- What a key holds: the text of a counter, or of a body. -/
abbrev Reply := ℕ ⊕ Body

/-- `str(version)`, as a key writes it. -/
def versionText (version : ℕ) : String := toString version

namespace Cache

def spotsVersionKey : String := "spots:version"

def spotDetailVersionKey (uid : String) : String := "spots:detail_version:" ++ uid

/-- The key of a list or map body. -/
def spotsListKey (version : ℕ) (digest : String) : String :=
  "spots:list:v" ++ versionText version ++ ":" ++ digest

/-- The key of a detail body. -/
def spotDetailBodyKey (uid : String) (version : ℕ) : String :=
  "spots:detail:" ++ uid ++ ":v" ++ versionText version

/-- The value of a query parameter. -/
inductive Param where
  | text (v : Option String)
  | list (v : Option (List String))
  | int (n : ℤ)

/-- `_normalize_param`. -/
def normalizeParam : Param → String
  | .list (some v) => ",".intercalate (v.insertionSort (· ≤ ·))
  | .list none => ""
  | .text (some v) => v
  | .text none => ""
  | .int n => toString n

/-- `"&".join(f"{k}={v}" for k, v in sorted(params.items()))`. -/
def rawParams (params : List (String × Param)) : String :=
  "&".intercalate ((params.insertionSort fun a b => a.1 ≤ b.1).map fun p =>
    p.1 ++ "=" ++ normalizeParam p.2)

section

variable (cfg : Settings)

def getCached (key : String) : App (Option Reply) :=
  if cfg.redisUrl then tryExcept (.perform (.get key)) fun _ => .ret none else .ret none

/-- The time to live is the environment's choice. -/
def setCached (key : String) (value : Body) : App Unit :=
  if cfg.redisUrl then tryExcept (.perform (.set key value)) fun _ => .ret () else .ret ()

/-- `int(value) if value else 0`; a body is no number. -/
def versionOf : Option Reply → Except Exc ℕ
  | none => .ok 0
  | some (.inl n) => .ok n
  | some (.inr _) => .error (.value "invalid literal for int() with base 10")

/-- Read the version under a key; 0 without a client, and on any exception. -/
def getVersion (key : String) : App ℕ :=
  if cfg.redisUrl then
    tryExcept ((Prog.perform (.get key) : App (Option Reply)).bind fun v => .ofExcept (versionOf v))
      fun _ => .ret 0
  else .ret 0

/-- Raise the version under a key. -/
def bump (key : String) : App Unit :=
  if cfg.redisUrl then tryExcept (.perform (.incr key)) fun _ => .ret () else .ret ()

def getSpotsVersion : App ℕ := getVersion cfg spotsVersionKey

def bumpSpotsVersion : App Unit := bump cfg spotsVersionKey

def makeSpotsListKey (be : Backend) (params : List (String × Param)) : App String :=
  (getSpotsVersion cfg).bind fun version =>
    .ret (spotsListKey version (be.sha256 (rawParams params)))

def getSpotDetailVersion (uid : String) : App ℕ := getVersion cfg (spotDetailVersionKey uid)

def spotDetailKey (uid : String) : App String :=
  (getSpotDetailVersion cfg uid).bind fun version => .ret (spotDetailBodyKey uid version)

def invalidateSpotDetail (uid : String) : App Unit := bump cfg (spotDetailVersionKey uid)

end

end Cache

end Vivac
