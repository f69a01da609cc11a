import Mathlib.Algebra.Order.Floor.Defs
import Mathlib.Data.Rat.Floor
import Mathlib.Algebra.Order.Field.Rat

/-!
# Python's `float(str)` and `int(str)`

The text of a number is brought to ASCII (decimal digits and spaces of other
scripts included), stripped, freed of the underscores between digits, and
scanned as a sign with `inf`, `infinity`, `nan` or a decimal literal. The value
of a literal is its nearest double, ties to even, and a zero keeps its sign.

An integer is a sign and digits, at most 4300 of them.
-/

set_option autoImplicit false

namespace Vivac.Lib

/-- A finite float: a number, or the zero with a sign. -/
inductive FiniteFloat where
  | num (q : ℚ)
  | negZero
  deriving DecidableEq

namespace FiniteFloat

instance : Coe ℚ FiniteFloat := ⟨num⟩

instance (n : ℕ) [OfNat ℚ n] : OfNat FiniteFloat n := ⟨num (OfNat.ofNat n)⟩

/-- The number that comparisons see. -/
def value : FiniteFloat → ℚ
  | num q => q
  | negZero => 0

/-- The sign bit. -/
def signed : FiniteFloat → Bool
  | num q => decide (q < 0)
  | negZero => true

/-- `-f`: the sign bit is turned. -/
def neg : FiniteFloat → FiniteFloat
  | num q => if q = 0 then negZero else num (-q)
  | negZero => num 0

@[simp] theorem value_num (q : ℚ) : (num q).value = q := rfl

end FiniteFloat

/-- A Python float. -/
inductive PyFloat where
  | nan
  | inf (negative : Bool)
  | fin (f : FiniteFloat)
  deriving DecidableEq

namespace Py

open PyFloat

/-! ## Rounding -/

/-- The nearest integer, ties to even. -/
def roundHalfEven (q : ℚ) : ℤ :=
  let f := ⌊q⌋
  if q - f < 1 / 2 then f else if 1 / 2 < q - f then f + 1 else if f % 2 = 0 then f else f + 1

/-- The exponent `k` with `2 ^ k ≤ |q| < 2 ^ (k + 1)`, for `q ≠ 0`. -/
def binaryExponent (q : ℚ) : ℤ :=
  let k : ℤ := (Nat.log2 q.num.natAbs : ℤ) - (Nat.log2 q.den : ℤ)
  if (2 : ℚ) ^ k ≤ |q| then k else k - 1

/-- The double nearest to `q`. -/
def toDouble (q : ℚ) : PyFloat :=
  if q = 0 then fin 0
  else
    let ulp : ℚ := (2 : ℚ) ^ max (binaryExponent q - 52) (-1074)
    let r := (roundHalfEven (q / ulp) : ℚ) * ulp
    if (2 : ℚ) ^ (1024 : ℕ) ≤ |r| then inf (q < 0)
    else if r = 0 ∧ q < 0 then fin .negZero
    else fin r

/-- `-a`. -/
def neg : PyFloat → PyFloat
  | nan => nan
  | inf negative => inf !negative
  | fin f => fin f.neg

/-! ## Characters -/

/-- The code points of the zeros of Unicode's decimal digits. -/
def digitZeros : List ℕ :=
  [0x30, 0x660, 0x6f0, 0x7c0, 0x966, 0x9e6, 0xa66, 0xae6, 0xb66, 0xbe6, 0xc66, 0xce6, 0xd66, 0xde6,
    0xe50, 0xed0, 0xf20, 0x1040, 0x1090, 0x17e0, 0x1810, 0x1946, 0x19d0, 0x1a80, 0x1a90, 0x1b50,
    0x1bb0, 0x1c40, 0x1c50, 0xa620, 0xa8d0, 0xa900, 0xa9d0, 0xa9f0, 0xaa50, 0xabf0, 0xff10, 0x104a0,
    0x10d30, 0x11066, 0x110f0, 0x11136, 0x111d0, 0x112f0, 0x11450, 0x114d0, 0x11650, 0x116c0,
    0x11730, 0x118e0, 0x11950, 0x11c50, 0x11d50, 0x11da0, 0x16a60, 0x16ac0, 0x16b50, 0x1d7ce,
    0x1d7d8, 0x1d7e2, 0x1d7ec, 0x1d7f6, 0x1e140, 0x1e2f0, 0x1e950, 0x1fbf0]

/-- The value of a decimal digit of any script. -/
def decimal? (c : Char) : Option ℕ :=
  (digitZeros.find? fun z => z ≤ c.toNat && c.toNat < z + 10).map fun z => c.toNat - z

/-- `str.isspace` of one character. -/
def isSpace (c : Char) : Bool :=
  let n := c.toNat
  (0x9 ≤ n && n ≤ 0xd) || (0x1c ≤ n && n ≤ 0x20) || n == 0x85 || n == 0xa0 || n == 0x1680 ||
    (0x2000 ≤ n && n ≤ 0x200a) || n == 0x2028 || n == 0x2029 || n == 0x202f || n == 0x205f ||
    n == 0x3000

/-- The C library's `isspace`. -/
def isCSpace (c : Char) : Bool := c == ' ' || (0x9 ≤ c.toNat && c.toNat ≤ 0xd)

/-- One character of a text that is not ASCII, brought to ASCII. -/
def toAsciiChar (c : Char) : Char :=
  if c.toNat < 127 then c
  else if isSpace c then ' '
  else match decimal? c with
    | some d => Char.ofNat (0x30 + d)
    | none => '?'

/-- Decimal digits and spaces of other scripts brought to ASCII. -/
def toAscii (s : List Char) : List Char :=
  if s.all fun c => c.toNat < 128 then s else s.map toAsciiChar

/-- Leading and trailing characters with `p` removed. -/
def strip (p : Char → Bool) (s : List Char) : List Char :=
  ((s.dropWhile p).reverse.dropWhile p).reverse

/-! ## Scanning -/

/-- Remove the underscores, each of which must stand between two digits; `prev` says
whether the previous character is a digit. -/
def dropUnderscores (prev : Bool) : List Char → Option (List Char)
  | [] => some []
  | '_' :: cs =>
    match cs with
    | [] => none
    | c :: _ => if prev && c.isDigit then dropUnderscores false cs else none
  | c :: cs => (dropUnderscores c.isDigit cs).map (c :: ·)

/-- The value of a string of digits. -/
def digitsValue (ds : List Char) : ℕ := ds.foldl (fun n c => 10 * n + (c.toNat - 0x30)) 0

/-- An optional sign and the rest. -/
def scanSign : List Char → Bool × List Char
  | '-' :: cs => (true, cs)
  | '+' :: cs => (false, cs)
  | cs => (false, cs)

/-- The exponent at the end of a literal. -/
def scanExponent : List Char → Option ℤ
  | [] => some 0
  | c :: cs =>
    if c == 'e' || c == 'E' then
      let (neg, ds) := scanSign cs
      if !ds.isEmpty && ds.all Char.isDigit then
        some (if neg then -(digitsValue ds : ℤ) else digitsValue ds)
      else none
    else none

/-- An unsigned decimal literal. -/
def scanDecimal (cs : List Char) : Option ℚ :=
  let whole := cs.takeWhile Char.isDigit
  let (frac, rest) :=
    match cs.dropWhile Char.isDigit with
    | '.' :: cs => (cs.takeWhile Char.isDigit, cs.dropWhile Char.isDigit)
    | cs => ([], cs)
  if whole.isEmpty && frac.isEmpty then none
  else (scanExponent rest).map fun (e : ℤ) =>
    (digitsValue (whole ++ frac) : ℚ) * (10 : ℚ) ^ (e - (frac.length : ℤ))

/-- A signed number, or a signed name. -/
def scanNumber (cs : List Char) : Option PyFloat :=
  let (negative, body) := scanSign cs
  let name := String.ofList (body.map Char.toLower)
  if name = "inf" || name = "infinity" then some (inf negative)
  else if name = "nan" then some nan
  else (scanDecimal body).map fun q => if negative then neg (toDouble q) else toDouble q

/-- `float(s)`; `none` is a `ValueError`. -/
def float (s : String) : Option PyFloat :=
  (dropUnderscores false (strip isCSpace (toAscii s.toList))).bind scanNumber

/-- `sys.get_int_max_str_digits()`. -/
def maxStrDigits : ℕ := 4300

/-- `int(s)`; `none` is a `ValueError`. -/
def int (s : String) : Option ℤ :=
  let (neg, body) := scanSign (strip isCSpace (toAscii s.toList))
  (dropUnderscores false body).bind fun ds =>
    if ds.isEmpty || !ds.all Char.isDigit || maxStrDigits < ds.length then none
    else some (if neg then -(digitsValue ds : ℤ) else digitsValue ds)

/-! ## `repr` -/

/-- `n` in hexadecimal, with at least `width` digits. -/
def hex (width n : ℕ) : List Char :=
  let ds := Nat.toDigits 16 n
  List.replicate (width - ds.length) '0' ++ ds

/-- One character of a `repr`. Characters from 0x7f on that are not printable are escaped
with the shortest of three forms. -/
def reprChar (isPrintable : Char → Bool) (quote c : Char) : List Char :=
  let n := c.toNat
  if c == quote || n == 0x5c then [Char.ofNat 0x5c, c]
  else if n == 0x9 then "\\t".toList
  else if n == 0xa then "\\n".toList
  else if n == 0xd then "\\r".toList
  else if 0x20 ≤ n && n < 0x7f then [c]
  else if 0x7f < n && isPrintable c then [c]
  else if n ≤ 0xff then "\\x".toList ++ hex 2 n
  else if n ≤ 0xffff then "\\u".toList ++ hex 4 n
  else "\\U".toList ++ hex 8 n

/-- `repr(s)`: in apostrophes, unless it has some and no quotation mark. -/
def repr (isPrintable : Char → Bool) (s : String) : String :=
  let apostrophe := Char.ofNat 0x27
  let mark := Char.ofNat 0x22
  let quote := if s.toList.contains apostrophe && !s.toList.contains mark then mark else apostrophe
  String.ofList (quote :: s.toList.flatMap (reprChar isPrintable quote) ++ [quote])

end Py

end Vivac.Lib
