import Vivac.Core.Cache

/-!
# The cache's keys

A version key is the list's or a spot's; a body key lies under one version of one
version key (`Cache.BodyUnder`). A key determines the version it lies under, and no
body key is a version key.
-/

set_option autoImplicit false

namespace Vivac

namespace Cache

/-- A key that holds a version. -/
def IsVersionKey (key : String) : Prop :=
  key = spotsVersionKey ∨ ∃ uid, key = spotDetailVersionKey uid

/-- `key` holds a body stored under version `n` of the version key `vk`. -/
def BodyUnder (vk : String) (n : ℕ) (key : String) : Prop :=
  (vk = spotsVersionKey ∧ ∃ digest, key = spotsListKey n digest) ∨
    ∃ uid, vk = spotDetailVersionKey uid ∧ key = spotDetailBodyKey uid n

theorem BodyUnder.isVersionKey {vk key : String} {n : ℕ} (h : BodyUnder vk n key) :
    IsVersionKey vk := by
  rcases h with ⟨rfl, -⟩ | ⟨uid, rfl, -⟩
  · exact .inl rfl
  · exact .inr ⟨uid, rfl⟩

theorem bodyUnder_spotsListKey (n : ℕ) (digest : String) :
    BodyUnder spotsVersionKey n (spotsListKey n digest) := .inl ⟨rfl, digest, rfl⟩

theorem bodyUnder_spotDetailBodyKey (uid : String) (n : ℕ) :
    BodyUnder (spotDetailVersionKey uid) n (spotDetailBodyKey uid n) := .inr ⟨uid, rfl, rfl⟩

/-! ## The text of a version -/

theorem toList_versionText (n : ℕ) : (versionText n).toList = Nat.toDigits 10 n :=
  Nat.toList_repr

theorem isDigit_of_mem_versionText {n : ℕ} {c : Char} (h : c ∈ (versionText n).toList) :
    c.isDigit = true := by
  rw [toList_versionText] at h
  exact Nat.isDigit_of_mem_toDigits (by decide) (by decide) h

theorem versionText_injective {n m : ℕ} (h : (versionText n).toList = (versionText m).toList) :
    n = m := by
  rw [toList_versionText, toList_versionText] at h
  have hread : ∀ k, Nat.ofDigitChars 10 (Nat.toDigits 10 k) 0 = k := fun k =>
    Nat.ofDigitChars_toDigits (by decide) (by decide)
  rw [← hread n, ← hread m, h]

/-- The digits before the first character that is none. -/
theorem digits_append {ds rest : List Char} {c : Char} (hds : ∀ d ∈ ds, d.isDigit = true)
    (hc : c.isDigit = false) : (ds ++ c :: rest).takeWhile Char.isDigit = ds := by
  rw [List.takeWhile_append_of_pos hds, List.takeWhile_cons_of_neg (by simp [hc]), List.append_nil]

/-! ## Which keys are equal -/

/-- Texts that start differently differ. -/
theorem append_ne_append {p q : String} (hpq : ¬p.toList <+: q.toList)
    (hqp : ¬q.toList <+: p.toList) (u v : String) : p ++ u ≠ q ++ v := by
  intro h
  have hl := congrArg String.toList h
  rw [String.toList_append, String.toList_append] at hl
  have hp : p.toList <+: q.toList ++ v.toList := hl ▸ List.prefix_append _ _
  rcases List.prefix_or_prefix_of_prefix hp (List.prefix_append _ _) with h | h
  · exact hpq h
  · exact hqp h

theorem spotsListKey_eq (n : ℕ) (digest : String) :
    spotsListKey n digest = "spots:list:v" ++ (versionText n ++ (":" ++ digest)) := by
  unfold spotsListKey
  rw [String.append_assoc, String.append_assoc]

theorem spotDetailBodyKey_eq (uid : String) (n : ℕ) :
    spotDetailBodyKey uid n = "spots:detail:" ++ (uid ++ (":v" ++ versionText n)) := by
  unfold spotDetailBodyKey
  rw [String.append_assoc, String.append_assoc]

theorem spotsVersionKey_ne (uid : String) : spotsVersionKey ≠ spotDetailVersionKey uid := by
  have hversion : spotsVersionKey = "spots:version" ++ "" := by decide
  rw [hversion]
  exact append_ne_append (by decide) (by decide) _ _

theorem spotsListKey_inj {n n' : ℕ} {d d' : String} (h : spotsListKey n d = spotsListKey n' d') :
    n = n' ∧ d = d' := by
  rw [spotsListKey_eq, spotsListKey_eq, String.append_right_inj] at h
  have hl := congrArg String.toList h
  have hcolon : ∀ m e, (versionText m ++ (":" ++ e)).toList =
      (versionText m).toList ++ ':' :: e.toList := by
    intro m e
    rw [String.toList_append, String.toList_append]
    rfl
  rw [hcolon, hcolon] at hl
  have htext := congrArg (List.takeWhile Char.isDigit) hl
  rw [digits_append (fun _ => isDigit_of_mem_versionText) (by decide),
    digits_append (fun _ => isDigit_of_mem_versionText) (by decide)] at htext
  rw [htext] at hl
  have htail := List.append_cancel_left hl
  exact ⟨versionText_injective htext, String.toList_inj.1 (List.cons.inj htail).2⟩

theorem spotDetailBodyKey_inj {u u' : String} {n n' : ℕ}
    (h : spotDetailBodyKey u n = spotDetailBodyKey u' n') : u = u' ∧ n = n' := by
  rw [spotDetailBodyKey_eq, spotDetailBodyKey_eq, String.append_right_inj] at h
  -- read from the end: the digits of the version come before the `v`
  have hl := congrArg (fun s => s.toList.reverse) h
  have hback : ∀ w m, (w ++ (":v" ++ versionText m)).toList.reverse =
      (versionText m).toList.reverse ++ 'v' :: ':' :: w.toList.reverse := by
    intro w m
    rw [String.toList_append, String.toList_append, List.reverse_append, List.reverse_append,
      List.append_assoc]
    rfl
  have hdigits : ∀ m : ℕ, ∀ c ∈ (versionText m).toList.reverse, c.isDigit = true := fun m c hc =>
    isDigit_of_mem_versionText (List.mem_reverse.1 hc)
  simp only [hback] at hl
  have htext := congrArg (List.takeWhile Char.isDigit) hl
  rw [digits_append (hdigits n) (by decide), digits_append (hdigits n') (by decide)] at htext
  rw [htext] at hl
  have htail := List.append_cancel_left hl
  have huid := (List.cons.inj (List.cons.inj htail).2).2
  exact ⟨String.toList_inj.1 (List.reverse_inj.1 huid),
    versionText_injective (List.reverse_inj.1 htext)⟩

theorem spotsListKey_ne_spotDetailBodyKey (n m : ℕ) (digest uid : String) :
    spotsListKey n digest ≠ spotDetailBodyKey uid m := by
  rw [spotsListKey_eq, spotDetailBodyKey_eq]
  exact append_ne_append (by decide) (by decide) _ _

/-- A body key lies under one version of one version key. -/
theorem BodyUnder.unique {vk vk' key : String} {n n' : ℕ} (h : BodyUnder vk n key)
    (h' : BodyUnder vk' n' key) : vk = vk' ∧ n = n' := by
  rcases h with ⟨rfl, d, rfl⟩ | ⟨u, rfl, rfl⟩
  · rcases h' with ⟨rfl, d', hk⟩ | ⟨u', rfl, hk⟩
    · exact ⟨rfl, (spotsListKey_inj hk).1⟩
    · exact absurd hk (spotsListKey_ne_spotDetailBodyKey _ _ _ _)
  · rcases h' with ⟨rfl, d', hk⟩ | ⟨u', rfl, hk⟩
    · exact absurd hk.symm (spotsListKey_ne_spotDetailBodyKey _ _ _ _)
    · obtain ⟨rfl, rfl⟩ := spotDetailBodyKey_inj hk
      exact ⟨rfl, rfl⟩

/-- No body key is a version key. -/
theorem BodyUnder.not_isVersionKey {vk key : String} {n : ℕ} (h : BodyUnder vk n key) :
    ¬IsVersionKey key := by
  have hstart : (∃ t, key = "spots:list:v" ++ t) ∨ ∃ t, key = "spots:detail:" ++ t := by
    rcases h with ⟨-, d, rfl⟩ | ⟨u, -, rfl⟩
    · exact .inl ⟨_, spotsListKey_eq n d⟩
    · exact .inr ⟨_, spotDetailBodyKey_eq u n⟩
  have hversion : spotsVersionKey = "spots:version" ++ "" := by decide
  rcases hstart with ⟨t, rfl⟩ | ⟨t, rfl⟩
  · rintro (hv | ⟨uid, hv⟩)
    · rw [hversion] at hv
      exact append_ne_append (by decide) (by decide) _ _ hv
    · exact append_ne_append (by decide) (by decide) _ _ hv
  · rintro (hv | ⟨uid, hv⟩)
    · rw [hversion] at hv
      exact append_ne_append (by decide) (by decide) _ _ hv
    · exact append_ne_append (by decide) (by decide) _ _ hv

end Cache

end Vivac
