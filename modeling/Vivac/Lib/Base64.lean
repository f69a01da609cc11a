import Mathlib.Data.Nat.Notation
import Mathlib.Data.List.Basic
import Mathlib.Tactic.IntervalCases

/-!
# URL-safe base64

`base64.urlsafe_b64encode`, and `base64.urlsafe_b64decode` as Python decodes by default: characters
outside the alphabet are skipped, a full pad ends the data, and data whose last quad is not complete
is refused. Bytes are natural numbers.

* `decode_encode`: what was encoded is decoded;
* `isSome_decodeFrom`: without padding, the number of data characters has to be a multiple of four;
* `mem_encode`: an encoded text has characters of the alphabet and pads only.
-/

set_option autoImplicit false

namespace Vivac.Lib.Base64

/-- The alphabet, in the order of the values. -/
def alphabet : List Char :=
  "ABCDEFGHIJKLMNOPQRSTUVWXYZabcdefghijklmnopqrstuvwxyz0123456789-_".toList

/-- The character of a value below 64. -/
def charOf (n : ℕ) : Char := alphabet.getD n 'A'

/-- The value of a data character. The plain alphabet's plus and slash are read, too. -/
def value? (c : Char) : Option ℕ :=
  if c = '+' then some 62
  else if c = '/' then some 63
  else if c ∈ alphabet then some (alphabet.idxOf c)
  else none

/-- Three bytes to four characters; one or two bytes at the end are padded. -/
def encode : List ℕ → List Char
  | [] => []
  | [a] => [charOf (a / 4), charOf (a % 4 * 16), '=', '=']
  | [a, b] => [charOf (a / 4), charOf (a % 4 * 16 + b / 16), charOf (b % 16 * 4), '=']
  | a :: b :: c :: rest =>
    charOf (a / 4) :: charOf (a % 4 * 16 + b / 16) :: charOf (b % 16 * 4 + c / 64) ::
      charOf (c % 64) :: encode rest

/-- What is left of a quad after `quad` of its characters; `left` is the value of the bits that are
not in a byte yet, and `pads` the number of pads in a row. -/
def decodeFrom (quad pads left : ℕ) : List Char → Option (List ℕ)
  | [] => if quad = 0 then some [] else none
  | c :: cs =>
    if c = '=' then
      if 2 ≤ quad then
        if 4 ≤ quad + (pads + 1) then some [] else decodeFrom quad (pads + 1) left cs
      else decodeFrom quad pads left cs
    else
      match value? c with
      | none => decodeFrom quad pads left cs
      | some n =>
        match quad with
        | 0 => decodeFrom 1 0 n cs
        | 1 => (decodeFrom 2 0 (n % 16) cs).map ((left * 4 + n / 16) :: ·)
        | 2 => (decodeFrom 3 0 (n % 4) cs).map ((left * 16 + n / 4) :: ·)
        | _ => (decodeFrom 0 0 0 cs).map ((left * 64 + n) :: ·)

def decode (cs : List Char) : Option (List ℕ) := decodeFrom 0 0 0 cs

/-! ## The alphabet -/

theorem charOf_mem {n : ℕ} (h : n < 64) : charOf n ∈ alphabet := by
  have hall : ∀ m < 64, charOf m ∈ alphabet := by decide +kernel
  exact hall n h

theorem value?_charOf {n : ℕ} (h : n < 64) : value? (charOf n) = some n := by
  have hall : ∀ m < 64, value? (charOf m) = some m := by decide +kernel
  exact hall n h

theorem ne_pad_of_mem {c : Char} (h : c ∈ alphabet) : c ≠ '=' := by
  rintro rfl
  exact absurd h (by decide)

theorem isSome_value?_of_mem {c : Char} (h : c ∈ alphabet) : (value? c).isSome = true := by
  simp only [value?, if_pos h]
  split
  · rfl
  · split <;> rfl

/-- An encoded text. -/
theorem mem_encode {bytes : List ℕ} (h : ∀ b ∈ bytes, b < 256) :
    ∀ c ∈ encode bytes, c ∈ alphabet ∨ c = '=' := by
  induction bytes using encode.induct with
  | case1 => simp [encode]
  | case2 a =>
      have ha := h a (by simp)
      intro c hc
      simp only [encode, List.mem_cons, List.not_mem_nil, or_false] at hc
      rcases hc with rfl | rfl | rfl | rfl
      · exact .inl (charOf_mem (by omega))
      · exact .inl (charOf_mem (by omega))
      · exact .inr rfl
      · exact .inr rfl
  | case3 a b =>
      have ha := h a (by simp)
      have hb := h b (by simp)
      intro c hc
      simp only [encode, List.mem_cons, List.not_mem_nil, or_false] at hc
      rcases hc with rfl | rfl | rfl | rfl
      · exact .inl (charOf_mem (by omega))
      · exact .inl (charOf_mem (by omega))
      · exact .inl (charOf_mem (by omega))
      · exact .inr rfl
  | case4 a b c rest ih =>
      have ha := h a (by simp)
      have hb := h b (by simp)
      have hc := h c (by simp)
      intro d hd
      simp only [encode, List.mem_cons] at hd
      rcases hd with rfl | rfl | rfl | rfl | hd
      · exact .inl (charOf_mem (by omega))
      · exact .inl (charOf_mem (by omega))
      · exact .inl (charOf_mem (by omega))
      · exact .inl (charOf_mem (by omega))
      · exact ih (fun x hx => h x (by simp [hx])) d hd

/-! ## Reading back -/

section Steps

variable {n : ℕ} (h : n < 64) (pads left : ℕ) (cs : List Char)
include h

theorem decodeFrom_zero : decodeFrom 0 pads left (charOf n :: cs) = decodeFrom 1 0 n cs := by
  rw [decodeFrom, if_neg (ne_pad_of_mem (charOf_mem h)), value?_charOf h]
  rfl

theorem decodeFrom_one : decodeFrom 1 pads left (charOf n :: cs) =
    (decodeFrom 2 0 (n % 16) cs).map ((left * 4 + n / 16) :: ·) := by
  rw [decodeFrom, if_neg (ne_pad_of_mem (charOf_mem h)), value?_charOf h]
  rfl

theorem decodeFrom_two : decodeFrom 2 pads left (charOf n :: cs) =
    (decodeFrom 3 0 (n % 4) cs).map ((left * 16 + n / 4) :: ·) := by
  rw [decodeFrom, if_neg (ne_pad_of_mem (charOf_mem h)), value?_charOf h]
  rfl

theorem decodeFrom_three : decodeFrom 3 pads left (charOf n :: cs) =
    (decodeFrom 0 0 0 cs).map ((left * 64 + n) :: ·) := by
  rw [decodeFrom, if_neg (ne_pad_of_mem (charOf_mem h)), value?_charOf h]
  rfl

end Steps

theorem decode_encode {bytes : List ℕ} (h : ∀ b ∈ bytes, b < 256) :
    decode (encode bytes) = some bytes := by
  unfold decode
  induction bytes using encode.induct with
  | case1 => rfl
  | case2 a =>
      have ha := h a (by simp)
      rw [encode, decodeFrom_zero (by omega), decodeFrom_one (by omega)]
      -- two pads complete the quad
      have hpads : decodeFrom 2 0 (a % 4 * 16 % 16) ['=', '='] = some [] := rfl
      have hbyte : a / 4 * 4 + a % 4 * 16 / 16 = a := by omega
      rw [hpads, hbyte]
      rfl
  | case3 a b =>
      have ha := h a (by simp)
      have hb := h b (by simp)
      rw [encode, decodeFrom_zero (by omega), decodeFrom_one (by omega), decodeFrom_two (by omega)]
      have hpad : decodeFrom 3 0 (b % 16 * 4 % 4) ['='] = some [] := rfl
      have hfirst : a / 4 * 4 + (a % 4 * 16 + b / 16) / 16 = a := by omega
      have hsecond : (a % 4 * 16 + b / 16) % 16 * 16 + b % 16 * 4 / 4 = b := by omega
      rw [hpad, hfirst, hsecond]
      rfl
  | case4 a b c rest ih =>
      have ha := h a (by simp)
      have hb := h b (by simp)
      have hc := h c (by simp)
      rw [encode, decodeFrom_zero (by omega), decodeFrom_one (by omega), decodeFrom_two (by omega),
        decodeFrom_three (by omega), ih fun x hx => h x (by simp [hx])]
      have hfirst : a / 4 * 4 + (a % 4 * 16 + b / 16) / 16 = a := by omega
      have hsecond : (a % 4 * 16 + b / 16) % 16 * 16 + (b % 16 * 4 + c / 64) / 4 = b := by omega
      have hthird : (b % 16 * 4 + c / 64) % 4 * 64 + c % 64 = c := by omega
      rw [hfirst, hsecond, hthird]
      rfl

/-- Text without pads is decoded when its data characters fill their quads. -/
theorem isSome_decodeFrom {cs : List Char} (hpad : '=' ∉ cs) {quad : ℕ} (hquad : quad < 4)
    (pads left : ℕ) : (decodeFrom quad pads left cs).isSome = true ↔
      (quad + cs.countP fun c => (value? c).isSome) % 4 = 0 := by
  induction cs generalizing quad pads left with
  | nil =>
      rw [decodeFrom, List.countP_nil, Nat.add_zero, Nat.mod_eq_of_lt hquad]
      split <;> simp [*]
  | cons c cs ih =>
      have hc : c ≠ '=' := fun heq => hpad (heq ▸ List.mem_cons_self ..)
      have hrest : '=' ∉ cs := fun hmem => hpad (List.mem_cons_of_mem _ hmem)
      rw [decodeFrom, if_neg hc]
      cases hv : value? c with
      | none =>
          rw [List.countP_cons_of_neg (by simp [hv])]
          exact ih hrest hquad pads left
      | some n =>
          rw [List.countP_cons_of_pos (by simp [hv])]
          -- a data character moves on in its quad
          interval_cases quad
          · show (decodeFrom 1 0 n cs).isSome = true ↔ _
            rw [ih hrest (by omega)]
            omega
          · show ((decodeFrom 2 0 (n % 16) cs).map ((left * 4 + n / 16) :: ·)).isSome = true ↔ _
            rw [Option.isSome_map, ih hrest (by omega)]
            omega
          · show ((decodeFrom 3 0 (n % 4) cs).map ((left * 16 + n / 4) :: ·)).isSome = true ↔ _
            rw [Option.isSome_map, ih hrest (by omega)]
            omega
          · show ((decodeFrom 0 0 0 cs).map ((left * 64 + n) :: ·)).isSome = true ↔ _
            rw [Option.isSome_map, ih hrest (by omega)]
            omega

/-! ## Texts -/

/-- The bytes of a text in UTF-8. -/
def utf8 (text : String) : List ℕ := text.toUTF8.data.toList.map UInt8.toNat

/-- The text of bytes in UTF-8. -/
def ofUtf8 (bytes : List ℕ) : Option String :=
  String.fromUTF8? ⟨(bytes.map UInt8.ofNat).toArray⟩

/-- `base64.urlsafe_b64encode(text.encode()).decode()`. -/
def encodeText (text : String) : String := String.ofList (encode (utf8 text))

/-- `base64.urlsafe_b64decode(text.encode())`. -/
def decodeText (text : String) : Option (List ℕ) := decode text.toList

theorem lt_of_mem_utf8 {text : String} : ∀ b ∈ utf8 text, b < 256 := by
  intro b hb
  obtain ⟨x, -, rfl⟩ := List.mem_map.1 hb
  exact x.toNat_lt

theorem decodeText_encodeText (text : String) : decodeText (encodeText text) =
    some (utf8 text) := by
  rw [decodeText, encodeText, String.toList_ofList]
  exact decode_encode lt_of_mem_utf8

theorem ofUtf8_utf8 (text : String) : ofUtf8 (utf8 text) = some text := by
  have hbytes : (utf8 text).map UInt8.ofNat = text.toUTF8.data.toList := by
    rw [utf8, List.map_map]
    refine (List.map_congr_left fun x _ => ?_).trans (List.map_id _)
    exact UInt8.ofNat_toNat
  have harray : (⟨((utf8 text).map UInt8.ofNat).toArray⟩ : ByteArray) = text.toUTF8 := by
    rw [hbytes, Array.toArray_toList]
  rw [ofUtf8, harray]
  exact dif_pos text.isValidUTF8

/-- Data characters without pads are read when they fill their quads. -/
theorem decodeText_eq_none {text : String} (hmem : ∀ c ∈ text.toList, c ≠ '=')
    (h : (text.toList.countP fun c => (value? c).isSome) % 4 ≠ 0) : decodeText text = none := by
  have hpad : '=' ∉ text.toList := fun hin => hmem _ hin rfl
  have hiff := isSome_decodeFrom hpad (by decide : 0 < 4) 0 0
  rw [Nat.zero_add] at hiff
  exact Option.not_isSome_iff_eq_none.1 fun hsome => h (hiff.1 hsome)

/-- No character of an encoded text separates anything. -/
theorem not_mem_encodeText {text : String} {c : Char} (hc : c ∉ alphabet) (hpad : c ≠ '=') :
    c ∉ (encodeText text).toList := by
  rw [encodeText, String.toList_ofList]
  intro hin
  rcases mem_encode lt_of_mem_utf8 c hin with h | h
  · exact hc h
  · exact hpad h

end Vivac.Lib.Base64
