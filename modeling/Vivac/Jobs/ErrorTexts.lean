import Vivac.Core.Errors
import Mathlib.Data.List.Infix

/-!
# What a recorded error tells

SQLAlchemy appends the statement and its parameters to the text of an exception, after a marker. The
text that `sanitize_exc_message` makes of an exception is the one it makes of the exception without
them, has no marker in it, and is cut off at its limit (`sanitizeExcMessage_hides_sql`).
-/

set_option autoImplicit false

namespace Vivac

open Lib

/-- What stands before the SQL text of an exception. -/
def sqlMarker : String := "\n[SQL:"

/-! ## Separators in lists -/

section Separators

variable {α : Type} {x : α} {t a b : List α}

/-- A separator begins where its first element can be. -/
theorem isInfix_of_notMem_left (hx : x ∉ a) (h : (x :: t) <:+: a ++ b) : (x :: t) <:+: b := by
  induction a with
  | nil => exact h
  | cons y a ih =>
      rw [List.cons_append, List.infix_cons_iff] at h
      rcases h with h | h
      · obtain ⟨hxy, -⟩ := List.cons_prefix_cons.1 h
        exact absurd (hxy ▸ List.mem_cons_self) hx
      · exact ih (fun hmem => hx (List.mem_cons_of_mem _ hmem)) h

/-- A separator ends where its last element can be. -/
theorem isInfix_of_notMem_right (hx : x ∉ b) (h : (t ++ [x]) <:+: a ++ b) : (t ++ [x]) <:+: a := by
  rw [← List.reverse_infix, List.reverse_append, List.reverse_append] at h
  rw [← List.reverse_infix, List.reverse_append]
  exact isInfix_of_notMem_left (fun hmem => hx (List.mem_reverse.1 hmem)) h

theorem strip_isInfix (p : Char → Bool) (s : List Char) : Py.strip p s <:+: s := by
  have htail : (s.dropWhile p).reverse.dropWhile p <:+ (s.dropWhile p).reverse :=
    List.dropWhile_suffix p
  have hprefix := List.reverse_prefix.2 htail
  rw [List.reverse_reverse] at hprefix
  exact hprefix.isInfix.trans (List.dropWhile_suffix p).isInfix

/-- The text before a separator starts the text. -/
theorem beforeSeparator_isPrefix (sep cs : List Char) : beforeSeparator sep cs <+: cs := by
  induction cs with
  | nil => exact List.prefix_rfl
  | cons c cs ih =>
      unfold beforeSeparator
      split
      · exact List.nil_prefix
      · exact List.cons_prefix_cons.2 ⟨rfl, ih⟩

/-- There is no separator before the first one. -/
theorem not_isInfix_beforeSeparator {sep : List Char} (hsep : sep ≠ []) (cs : List Char) :
    ¬sep <:+: beforeSeparator sep cs := by
  induction cs with
  | nil => exact fun h => hsep (List.infix_nil.1 h)
  | cons c cs ih =>
      unfold beforeSeparator
      split
      · exact fun h => hsep (List.infix_nil.1 h)
      · rename_i hfirst
        intro h
        rcases List.infix_cons_iff.1 h with h | h
        · apply hfirst
          rw [List.isPrefixOf_iff_prefix]
          exact h.trans (List.cons_prefix_cons.2 ⟨rfl, beforeSeparator_isPrefix sep cs⟩)
        · exact ih h

/-- A text without the separator is before it. -/
theorem beforeSeparator_eq_self {sep cs : List Char} (h : ¬sep <:+: cs) :
    beforeSeparator sep cs = cs := by
  induction cs with
  | nil => rfl
  | cons c cs ih =>
      have hfirst : ¬sep.isPrefixOf (c :: cs) = true := fun hp =>
        h (List.isPrefixOf_iff_prefix.1 hp).isInfix
      rw [beforeSeparator, if_neg hfirst, ih fun hi => h (List.infix_cons hi)]

/-- The first element of the separator does not come again in it, so no separator begins in the text
before it and ends in it. -/
theorem beforeSeparator_append {c : Char} {sep : List Char} (hc : c ∉ sep) {m : List Char}
    (hm : ¬(c :: sep) <:+: m) (s : List Char) :
    beforeSeparator (c :: sep) (m ++ (c :: sep ++ s)) = m := by
  induction m with
  | nil =>
      have hfirst : (c :: sep).isPrefixOf (c :: sep ++ s) = true :=
        List.isPrefixOf_iff_prefix.2 (List.prefix_append _ _)
      rw [List.nil_append, List.cons_append, beforeSeparator]
      rw [List.cons_append] at hfirst
      rw [if_pos hfirst]
  | cons d m ih =>
      have hfirst : ¬(c :: sep).isPrefixOf (d :: m ++ (c :: sep ++ s)) = true := by
        intro hp
        have hlong := List.isPrefixOf_iff_prefix.1 hp
        by_cases hlength : (c :: sep).length ≤ (d :: m).length
        · exact hm (List.prefix_of_prefix_length_le hlong (List.prefix_append _ _) hlength).isInfix
        · -- then the separator has its own first element inside
          have hshort : d :: m <+: c :: sep :=
            List.prefix_of_prefix_length_le (List.prefix_append _ _) hlong (by omega)
          obtain ⟨rest, hrest⟩ := hshort
          have hnext : rest <+: c :: sep ++ s := by
            rw [← hrest, List.prefix_append_right_inj] at hlong
            rw [← hrest]
            exact hlong
          cases rest with
          | nil =>
              rw [List.append_nil] at hrest
              exact hlength (hrest ▸ le_rfl)
          | cons r rest =>
              rw [List.cons_append] at hnext
              obtain ⟨hr, -⟩ := List.cons_prefix_cons.1 hnext
              obtain ⟨-, hsep⟩ := List.cons.inj hrest
              apply hc
              rw [← hsep, ← hr]
              exact List.mem_append_right _ List.mem_cons_self
      rw [List.cons_append] at hfirst ⊢
      rw [beforeSeparator, if_neg hfirst, ih fun hi => hm (List.infix_cons hi)]

end Separators

/-! ## The recorded text -/

/-- The reason of an exception: its class, and its message where it has one. -/
def reasonOf (e : Exc) : List Char :=
  let message := Py.strip Py.isSpace (beforeSeparator sqlMarker.toList e.text.toList)
  if message.isEmpty then e.className.toList else e.className.toList ++ ": ".toList ++ message

/-- The recorded text is the reason, cut off at the limit. -/
theorem sanitizeExcMessage_eq (e : Exc) (maxLen : ℕ) : sanitizeExcMessage e maxLen =
    if maxLen < (reasonOf e).length then String.ofList ((reasonOf e).take maxLen ++ "...".toList)
    else String.ofList (reasonOf e) := rfl

/-- The recorded text, by the class and the text before the marker. -/
theorem sanitizeExcMessage_congr {e e' : Exc} (hclass : e.className = e'.className)
    (htext : beforeSeparator sqlMarker.toList e.text.toList =
      beforeSeparator sqlMarker.toList e'.text.toList) (maxLen : ℕ) :
    sanitizeExcMessage e maxLen = sanitizeExcMessage e' maxLen := by
  have hreason : reasonOf e = reasonOf e' := by
    unfold reasonOf
    rw [hclass, htext]
  rw [sanitizeExcMessage_eq, sanitizeExcMessage_eq, hreason]

/-- The marker is a line break and a text without one. -/
theorem sqlMarker_eq : ∃ rest, sqlMarker.toList = '\n' :: (rest ++ [':']) ∧ '\n' ∉ rest ++ [':'] :=
  ⟨"[SQL".toList, by decide, by decide⟩

/-- A reason without the marker has none when it is cut off either. -/
theorem not_isInfix_cut {reason : List Char} (h : ¬sqlMarker.toList <:+: reason) (maxLen : ℕ) :
    ¬sqlMarker.toList <:+: reason.take maxLen ++ "...".toList := by
  obtain ⟨rest, hmarker, -⟩ := sqlMarker_eq
  intro hcut
  rw [hmarker, ← List.cons_append] at hcut h
  have hdots : ':' ∉ "...".toList := by decide
  exact h ((isInfix_of_notMem_right hdots hcut).trans (List.take_prefix _ _).isInfix)

/-- The reason has no marker. -/
theorem not_isInfix_reasonOf {e : Exc} (hname : '\n' ∉ e.className.toList) :
    ¬sqlMarker.toList <:+: reasonOf e := by
  obtain ⟨rest, hmarker, -⟩ := sqlMarker_eq
  have hmessage : ¬sqlMarker.toList <:+:
      Py.strip Py.isSpace (beforeSeparator sqlMarker.toList e.text.toList) := fun h =>
    not_isInfix_beforeSeparator (by decide) e.text.toList (h.trans (strip_isInfix _ _))
  unfold reasonOf
  dsimp only
  intro h
  split at h
  · rw [hmarker, ← List.append_nil e.className.toList] at h
    exact absurd (List.infix_nil.1 (isInfix_of_notMem_left hname h)) (List.cons_ne_nil _ _)
  · -- neither the class nor the colon and the blank can begin the marker
    have hstart : '\n' ∉ e.className.toList ++ ": ".toList := by
      rw [List.mem_append, not_or]
      exact ⟨hname, by decide⟩
    rw [hmarker] at h hmessage
    exact hmessage (isInfix_of_notMem_left hstart h)

/-- Whatever an exception tells, its recorded text has no marker. -/
theorem not_isInfix_sanitizeExcMessage {e : Exc} (hname : '\n' ∉ e.className.toList) (maxLen : ℕ) :
    ¬sqlMarker.toList <:+: (sanitizeExcMessage e maxLen).toList := by
  rw [sanitizeExcMessage_eq]
  split
  · rw [String.toList_ofList]
    exact not_isInfix_cut (not_isInfix_reasonOf hname) maxLen
  · rw [String.toList_ofList]
    exact not_isInfix_reasonOf hname

theorem length_sanitizeExcMessage_le (e : Exc) (maxLen : ℕ) :
    (sanitizeExcMessage e maxLen).length ≤ maxLen + 3 := by
  rw [sanitizeExcMessage_eq]
  split
  · have hdots : "...".toList.length = 3 := by decide
    rw [String.length_ofList, List.length_append, List.length_take]
    omega
  · rw [String.length_ofList]
    omega

/-- An exception whose text goes on after the marker is recorded like one without the rest; no
recorded text has the marker, or is longer than the limit and three points. -/
theorem sanitizeExcMessage_hides_sql {e : Exc} (hname : '\n' ∉ e.className.toList) (maxLen : ℕ) :
    (∀ (e' : Exc) (m s : String), e'.className = e.className → ¬sqlMarker.toList <:+: m.toList →
      e.text = m ++ sqlMarker ++ s → e'.text = m →
        sanitizeExcMessage e maxLen = sanitizeExcMessage e' maxLen) ∧
    ¬sqlMarker.toList <:+: (sanitizeExcMessage e maxLen).toList ∧
    (sanitizeExcMessage e maxLen).length ≤ maxLen + 3 := by
  refine ⟨?_, not_isInfix_sanitizeExcMessage hname maxLen, length_sanitizeExcMessage_le e maxLen⟩
  intro e' m s hclass hm htext htext'
  apply sanitizeExcMessage_congr hclass.symm
  obtain ⟨rest, hmarker, hrest⟩ := sqlMarker_eq
  have hlist : e.text.toList = m.toList ++ (sqlMarker.toList ++ s.toList) := by
    rw [htext, String.toList_append, String.toList_append, List.append_assoc]
  rw [hlist, htext', beforeSeparator_eq_self hm, hmarker]
  rw [hmarker] at hm
  exact beforeSeparator_append hrest hm s.toList

/-- A failed insert with its statement. -/
theorem sanitizeExcMessage_hides_insert :
    sanitizeExcMessage (.database "IntegrityError" "null value\n[SQL: INSERT INTO spots]") 500 =
      sanitizeExcMessage (.database "IntegrityError" "null value") 500 :=
  (sanitizeExcMessage_hides_sql (by decide) 500).1 (.database "IntegrityError" "null value")
    "null value" " INSERT INTO spots]" rfl (by decide) (by decide) rfl

end Vivac
