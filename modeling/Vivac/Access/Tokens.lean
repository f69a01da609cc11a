import Vivac.Access.Portal
import Vivac.Core.SampleBackend

/-!
# Tokens and the logins they come from

In every run, whoever is let in was there and active when the request looked, and its token goes
back through renewals, each with a refresh token that was valid at the time and for a user who was
active, to one login: of the Google account that the user belongs to, or of a member of the staff
with the user's address (`admitted_signed_in`).

A token cannot be taken back, but an account can be closed: once it was closed for the longest time
that a token is valid, nobody is let in as its user without a login from after that
(`admitted_after_closing`).
-/

set_option autoImplicit false

namespace Vivac.Access

open Lib App

section Runs

variable {ι Token : Type} [DecidableEq ι] {v : AuthServer Token} {calls : ι → AuthCall Token}
  {arrival : ι → Timestamp} {drawn : String → String} {start : Db} {s s' : Portal ι}

/-- Whoever is let in has a token of its own uid that goes back to a login. -/
theorem Portal.Sound.signedIn (h : s.Sound v calls arrival drawn start) {a : Admission ι}
    (ha : a ∈ s.admitted) :
    ∃ first k, s.Descends v calls arrival first k ∧ LetIn v calls arrival s a k ∧
      first.payload.sub = a.user.uid := by
  obtain ⟨k, hk⟩ := h.letIn a ha
  obtain ⟨-, first, hfirst⟩ := h.made k hk.made
  exact ⟨first, k, hfirst, hk, hfirst.sub_eq.symm.trans hk.sub⟩

/-- In every run, whoever is let in has a valid access token, was active when the request looked,
and has the token from a login, by renewals each with a valid refresh token of an active user: by a
login with the Google account of the user, or with the address of a member of the staff. -/
theorem admitted_signed_in (hjwt : v.jwt.Faithful) (hcalls : WellDrawn drawn start calls)
    {now : Timestamp} (hrun : PortalRun v calls arrival (Portal.start start now) s) :
    ∀ a ∈ s.admitted, ∃ first k, s.Descends v calls arrival first k ∧ LetIn v calls arrival s a k ∧
      first.payload.sub = a.user.uid ∧
      ∀ uid nicknames info inviteUid,
        calls first.request = .googleLogin uid nicknames (some info) inviteUid →
          info.sub = a.user.googleSub := by
  intro a ha
  have hsound := sound_of_run hjwt hcalls hrun
  obtain ⟨first, k, hfirst, hk, hsub⟩ := hsound.signedIn ha
  refine ⟨first, k, hfirst, hk, hsub, fun uid nicknames info inviteUid hcall => ?_⟩
  cases hfirst.1 with
  | @google uid' nicknames' info' inviteUid' user _ hcall' hsaw huser _ hgoogle =>
      rw [hcall'] at hcall
      cases hcall
      have huid : user.uid = a.user.uid := huser.symm.trans hsub
      rw [← hgoogle, hsound.googleSub_eq hsaw, hsound.googleSub_eq hk.saw, huid]
  | staff _ hcall' =>
      -- this login was not with a Google account of the app
      rw [hcall'] at hcall
      cases hcall

namespace Sample

open Vivac.Sample (user backend)

/-- Payloads that sign themselves. -/
def openJwt : Jwt Payload where
  encode := id
  decode now payload := if payload.ValidAt now then some payload.written else none

theorem faithful_openJwt : openJwt.Faithful := ⟨fun _ _ => rfl⟩

def server : AuthServer Payload where
  be := backend
  dbLower := id
  cfg := {}
  jwt := openJwt

/-- The camper's account is closed. -/
def camper : Db :=
  { Db.empty with users := ⟨[{ user "camper" with isActive := false }], by decide⟩ }

/-- The camper's account is opened. -/
def reopen : App Unit := do
  flushUser "camper" (Rewrite.total (fun u => { u with isActive := true }) fun _ => rfl)
  commit

def reopened : Timestamp := longestLifetime {} + 1

/-- The requests of the camper, and the one by which the account is opened. -/
inductive Coming where
  | refused
  | opening
  | login
  | asking
  deriving DecidableEq

/-- The camper logs in, with no success; its account is opened, and it logs in again and asks who it
is with its new token. -/
def signIns : Coming → AuthCall Payload
  | .opening => .other reopen
  | .asking => .me (some (accessClaims {} reopened "camper"))
  | _ => .googleLogin "spare" (fun _ => "") (some { sub := "camper", email := "camper" }) none

def comings : Coming → Timestamp
  | .refused => 0
  | _ => reopened

theorem uses_reopen : reopen.Uses (Cmd.Moves (AccountsKept fun _ => "camper")) := by
  have hflush : reopen.Uses (KeepsAccounts fun _ => "camper") := by
    refine (uses_flushUser "camper" fun u u' hu => ?_).bind fun _ => ?_
    · cases hu
      rfl
    · exact Prog.uses_perform admits_keepsAccounts.commit
  exact hflush.mono moves_of_keepsAccounts

theorem wellDrawn_signIns : WellDrawn (fun _ => "camper") camper signIns where
  login i uid nicknames info inviteUid hcall := by
    cases i with
    | opening => cases hcall
    | asking => cases hcall
    | refused | login =>
        cases hcall
        exact ⟨by decide, rfl⟩
  other i p hcall := by
    cases i with
    | opening =>
        cases hcall
        exact uses_reopen
    | refused | login | asking => cases hcall

/-- A token is known when it is the payload of a ticket. -/
theorem known_of_any {s : Portal Coming} {token : Payload}
    (h : (s.tickets.any fun k => k.payload = token ∧ k.issuedAt ≤ s.now) = true) :
    Known server s.tickets s.now token := by
  obtain ⟨k, hk, hfound⟩ := List.any_eq_true.1 h
  obtain ⟨rfl, hissued⟩ := of_decide_eq_true hfound
  exact fun _ _ _ => ⟨k, hk, rfl, hissued⟩

/-- The camper is let in when its account is opened; before, no request has found it active, and
every answer comes at once. -/
def Shows (s : Portal Coming) : Prop :=
  (s.admitted.map fun a => (a.user.uid, a.answeredAt)) = [("camper", reopened)] ∧
    (∀ x ∈ s.past, x.1 ≤ longestLifetime {} →
      ∀ user ∈ x.2.users.find? "camper", user.isActive = false) ∧
    (∀ k ∈ s.tickets, k.issuedAt ≤ comings k.request) ∧
    ∀ a ∈ s.admitted, a.answeredAt ≤ comings a.request

instance (s : Portal Coming) : Decidable (Shows s) := inferInstanceAs (Decidable (_ ∧ _))

theorem run_signIns : ∃ s : Portal Coming,
    PortalRun server signIns comings (Portal.start camper 0) s ∧ Shows s := by
  have hcomputed : (((Portal.start camper 0).serve server signIns .refused).any fun s =>
      decide (s.now ≤ reopened) &&
      (Portal.serve server signIns .opening { s with now := reopened }).any fun s =>
        decide (comings .login = s.now) && (s.serve server signIns .login).any fun s =>
          decide (comings .asking = s.now) && (s.tickets.any fun k =>
            k.payload = accessClaims {} reopened "camper" ∧ k.issuedAt ≤ s.now) &&
          (s.serve server signIns .asking).any fun s => decide (Shows s)) = true := by
    decide +kernel
  simp only [Option.any_eq_true, Bool.and_eq_true, decide_eq_true_eq] at hcomputed
  obtain ⟨s₁, hrefused, hlater, s₂, hopening, hlogin, s₃, hloggedIn, ⟨hasking, hmade⟩, s, hasked,
    hshows⟩ := hcomputed
  -- only the last request brings a token
  have hrun₁ := portalRun_of_serve server signIns comings rfl (fun _ h => by cases h) hrefused
  have hwait : PortalRun server signIns comings s₁ { s₁ with now := reopened } :=
    .single (.wait reopened hlater)
  have hrun₂ := portalRun_of_serve server signIns comings rfl (fun _ h => by cases h) hopening
  have hrun₃ := portalRun_of_serve server signIns comings hlogin (fun _ h => by cases h) hloggedIn
  have hrun := portalRun_of_serve server signIns comings hasking
    (fun token htoken => by
      cases htoken
      exact known_of_any hmade) hasked
  exact ⟨s, (((hrun₁.trans hwait).trans hrun₂).trans hrun₃).trans hrun, hshows⟩

end Sample

/-- The camper's token goes back to the camper's login. -/
theorem admitted_signed_in_camper : ∃ s : Portal Sample.Coming,
    (s.admitted.map fun a => (a.user.uid, a.answeredAt)) = [("camper", Sample.reopened)] ∧
    ∀ a ∈ s.admitted, ∃ first k,
      s.Descends Sample.server Sample.signIns Sample.comings first k ∧
      LetIn Sample.server Sample.signIns Sample.comings s a k := by
  obtain ⟨s, hrun, hletIn, -⟩ := Sample.run_signIns
  refine ⟨s, hletIn, fun a ha => ?_⟩
  obtain ⟨first, k, hdescends, hk, -⟩ :=
    admitted_signed_in Sample.faithful_openJwt Sample.wellDrawn_signIns hrun a ha
  exact ⟨first, k, hdescends, hk⟩

/-! ## Accounts that were closed -/

/-- No token is valid for longer than the longest lifetime. -/
theorem exp_le_of_run {s₀ : Portal ι} (hrun : PortalRun v calls arrival s₀ s)
    (h₀ : s₀.tickets = []) :
    ∀ k ∈ s.tickets, k.payload.exp ≤ k.issuedAt + longestLifetime v.cfg := by
  induction hrun with
  | refl =>
      rw [h₀]
      exact fun k hk => by cases hk
  | tail _ hstep ih =>
      cases hstep with
      | wait later hlater => exact ih
      | arrive i hwaiting hnow hknown => exact ih
      | command config hstep => exact ih
      | answer i reply hreply hcome =>
          intro k hk
          rcases List.mem_append.1 hk with hold | hnew
          · exact ih k hold
          · cases reply with
            | tokens userUid =>
                rcases List.mem_cons.1 hnew with rfl | hnew
                · exact accessClaims_exp_le v.cfg _ userUid
                · rw [List.mem_singleton.1 hnew]
                  exact refreshClaims_exp_le v.cfg _ userUid
            | adminToken user =>
                rw [List.mem_singleton.1 hnew]
                exact adminAccessClaims_exp_le v.cfg _ _ _
            | waiting => cases hnew
            | profile user => cases hnew
            | done => cases hnew
            | answered => cases hnew

/-- Between `T` and `T'` no request has found the user active. -/
def Portal.ClosedDuring (s : Portal ι) (uid : String) (T T' : Timestamp) : Prop :=
  ∀ t d, (t, d) ∈ s.past → T ≤ t → t ≤ T' → ∀ user, d.users.find? uid = some user →
    user.isActive = false

/-- Every answer comes within `δ` of its request. -/
structure Portal.Prompt (arrival : ι → Timestamp) (δ : ℤ) (s : Portal ι) : Prop where
  tickets : ∀ k ∈ s.tickets, k.issuedAt ≤ arrival k.request + δ
  admitted : ∀ a ∈ s.admitted, a.answeredAt ≤ arrival a.request + δ

omit [DecidableEq ι] in
/-- A user who was found active was so before the account was closed, or after. -/
theorem Portal.ClosedDuring.before_or_after {uid : String} {T T' t : Timestamp}
    {i : ι} {user : User}
    (h : s.ClosedDuring uid T T') (hsaw : s.Saw arrival i t user) (huid : user.uid = uid)
    (hactive : user.isActive = true) : arrival i < T ∨ T' < t := by
  obtain ⟨at', d, hpast, harrival, ht, huser⟩ := hsaw
  rw [huid] at huser
  by_contra hnot
  rw [not_or, not_lt, not_lt] at hnot
  rcases lt_or_ge T' at' with hlate | hearly
  · exact absurd (hlate.trans_le ht) hnot.2.not_gt
  · have hclosed := h at' d hpast (hnot.1.trans harrival) hearly user huser
    rw [hactive] at hclosed
    cases hclosed

/-- When an account was closed for as long as any token is valid, and twice the time of an answer,
no token from before is of any use: whoever is let in as its user has logged in anew. -/
theorem admitted_after_closing (hjwt : v.jwt.Faithful) (hcalls : WellDrawn drawn start calls)
    {now : Timestamp} (hrun : PortalRun v calls arrival (Portal.start start now) s) {δ : ℤ}
    (hprompt : s.Prompt arrival δ) {uid : String} {T T' : Timestamp}
    (hclosed : s.ClosedDuring uid T T') (hlong : T + longestLifetime v.cfg + 2 * δ ≤ T') :
    ∀ a ∈ s.admitted, a.user.uid = uid → T' < arrival a.request →
      ∃ first k, s.Descends v calls arrival first k ∧ LetIn v calls arrival s a k ∧
        T' < first.issuedAt := by
  intro a ha huid hafter
  have hsound := sound_of_run hjwt hcalls hrun
  have hexp := exp_le_of_run hrun rfl
  obtain ⟨first, k, hdescends, hk, hsub⟩ := hsound.signedIn ha
  refine ⟨first, k, hdescends, hk, ?_⟩
  obtain ⟨hfirst, hchain⟩ := hdescends
  -- a token of the chain is from before the closing, unless the login is from after it
  have hfirstSaw : ∃ user, s.Saw arrival first.request first.issuedAt user ∧ user.uid = uid ∧
      user.isActive = true ∧ first ∈ s.tickets := by
    cases hfirst with
    | @google _ _ _ _ user hmem _ hsaw huser hactive _ =>
        exact ⟨user, hsaw, huser.symm.trans (hsub.trans huid), hactive, hmem⟩
    | @staff _ user hmem _ hsaw hpayload hactive _ _ _ =>
        rw [hpayload] at hsub
        exact ⟨user, hsaw, hsub.trans huid, hactive, hmem⟩
  obtain ⟨user, hsaw, huser, hactive, hmem⟩ := hfirstSaw
  have hold : T' < first.issuedAt ∨ k.issuedAt < T + δ ∧ k.payload.sub = uid := by
    clear hk
    induction hchain with
    | refl =>
        rcases hclosed.before_or_after hsaw huser hactive with hbefore | hlate
        · exact .inr ⟨by linarith [hprompt.tickets first hmem], hsub.trans huid⟩
        · exact .inl hlate
    | @tail r k _ hr ih =>
        rcases ih with hlate | ⟨hr', hrsub⟩
        · exact .inl hlate
        · right
          obtain ⟨user', hsaw', huser', hactive'⟩ := hr.active
          have hksub : k.payload.sub = uid := hr.sub.trans hrsub
          have harrival : arrival k.request < r.payload.exp := hr.valid.lt_exp
          have hissued := hprompt.tickets k hr.new
          have hlast := hexp r hr.old
          refine ⟨?_, hksub⟩
          rcases hclosed.before_or_after hsaw'
            (huser'.symm.trans hksub) hactive' with hbefore | hlate
          · linarith
          · linarith
  rcases hold with hlate | ⟨hbefore, -⟩
  · exact hlate
  · obtain ⟨at', d, -, harrival, hanswered, -⟩ := hk.saw
    have hδ := hprompt.admitted a ha
    have hlast := hexp k hk.made
    have hused : arrival a.request < k.payload.exp := hk.valid.lt_exp
    linarith

/-- The camper, whose account was closed for as long as any token is valid, has logged in since. -/
theorem admitted_after_closing_camper : ∃ s : Portal Sample.Coming,
    (s.admitted.map fun a => (a.user.uid, a.answeredAt)) = [("camper", Sample.reopened)] ∧
    ∀ a ∈ s.admitted, ∃ first k,
      s.Descends Sample.server Sample.signIns Sample.comings first k ∧
      LetIn Sample.server Sample.signIns Sample.comings s a k ∧
      longestLifetime {} < first.issuedAt := by
  obtain ⟨s, hrun, hletIn, hpast, htickets, hadmitted⟩ := Sample.run_signIns
  have hprompt : s.Prompt Sample.comings 0 := by
    refine ⟨fun k hk => ?_, fun a ha => ?_⟩
    · simpa using htickets k hk
    · simpa using hadmitted a ha
  have hclosed : s.ClosedDuring "camper" 0 (longestLifetime {}) :=
    fun t d hmem _ ht user huser => hpast (t, d) hmem ht user huser
  refine ⟨s, hletIn, fun a ha => ?_⟩
  have hmem : (a.user.uid, a.answeredAt) ∈ s.admitted.map fun a => (a.user.uid, a.answeredAt) :=
    List.mem_map_of_mem ha
  rw [hletIn, List.mem_singleton, Prod.mk.injEq] at hmem
  have harrival : longestLifetime {} < Sample.comings a.request :=
    (hmem.2 ▸ hadmitted a ha).trans_lt' (lt_add_one _)
  exact admitted_after_closing Sample.faithful_openJwt Sample.wellDrawn_signIns hrun hprompt hclosed
    (by simp [Sample.server]) a ha hmem.1 harrival

end Runs

end Vivac.Access
