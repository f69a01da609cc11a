import Vivac.Reads.Pages
import Vivac.Crud.SpotQueries
import Vivac.Crud.Message
import Vivac.Core.SampleBackend

/-!
# The three paged reads

List, search and messages compute keyset pages. Base64, JSON and ISO texts are
exact, and a uid has no colon.
-/

set_option autoImplicit false

namespace Vivac

open Lib App

/-- Base64, JSON and ISO texts give back what was written, and an empty text is no JSON. -/
structure ExactTexts (be : Backend) : Prop where
  base64 : ∀ text, be.b64decode (be.b64encode text) = some text
  base64_empty : be.b64decode "" = some ""
  json : ∀ fields : List (String × (ℚ ⊕ String)),
    be.jsonLoads (be.jsonDumps (.obj (fields.map fun p =>
      (p.1, p.2.elim (fun q => .float (.fin (.num q))) .str)))) =
    some (.obj (fields.map fun p => (p.1, p.2.elim (fun q => .float (.fin (.num q))) .str)))
  json_empty : be.jsonLoads "" = none
  iso : ∀ t, be.fromisoformat (be.isoformat t) = some t

/-- No uid has a colon. -/
def NoColons (d : Db) : Prop := ∀ s ∈ d.spots.rows, ':' ∉ s.uid.toList

/-! ## The look-ahead -/

section LookAhead

variable {ρ κ : Type} [LinearOrder κ]

/-- The end of a paged read: cut the look-ahead row off and issue the cursor of the last row. -/
def finishPage (limit : ℕ) (encode : ρ → String) (got : List ρ) :
    App (List ρ × Option String × Bool) :=
  if limit < got.length then
    (Prog.ofExcept (lastOf (got.take limit))).bind fun last =>
      .ret (got.take limit, some (encode last), true)
  else .ret (got, none, false)

/-- The end of a paged read is the keyset page of what it got. -/
theorem answers_finishPage {limit : ℕ} (hl : 1 ≤ limit) (d : Db) (key : ρ → κ)
    (after : Option κ) (rows : List ρ) (encode : κ → String) :
    ∃ more, Answers () d
      (finishPage limit (encode ∘ key) ((Keyset.candidates key after rows).take (limit + 1)))
      (.ok ((Keyset.page key limit after rows).rows,
        (Keyset.page key limit after rows).next.map encode, more)) := by
  rw [Keyset.page_eq_lookahead]
  unfold finishPage
  dsimp only
  split
  · rename_i hlen
    refine ⟨true, ?_⟩
    have hne : ((Keyset.candidates key after rows).take (limit + 1)).take limit ≠ [] := by
      intro hnil
      have := congrArg List.length hnil
      rw [List.length_take, List.length_nil] at this
      omega
    simp only [lastOf, List.getLast?_eq_some_getLast hne, Prog.ofExcept, Prog.bind_ret,
      Option.map_some, Function.comp_apply]
    exact Answers.ret _
  · exact ⟨false, Answers.ret _⟩

end LookAhead

/-! ## The public list -/

section ListSpots

variable (cfg : Settings) (be : Backend) (flt : ExploreFilter)

/-- The cursor of a list page. -/
def listCursor (uid : String) : String := scopeToken be flt.bbox ++ ":" ++ uid

theorem rpartitionColon_listCursor {uid : String} (h : ':' ∉ uid.toList) :
    rpartitionColon (listCursor be flt uid) = (scopeToken be flt.bbox, uid) := by
  have hrev : (listCursor be flt uid).toList.reverse =
      uid.toList.reverse ++ ':' :: (scopeToken be flt.bbox).toList.reverse := by
    simp [listCursor, String.toList_append]
  have hall : ∀ c ∈ uid.toList.reverse, (c != ':') = true := by
    intro c hc
    simp only [bne_iff_ne, ne_eq]
    rintro rfl
    exact h (List.mem_reverse.1 hc)
  have htake : (listCursor be flt uid).toList.reverse.takeWhile (fun c => c != ':') =
      uid.toList.reverse := by
    rw [hrev, List.takeWhile_append_of_pos hall]
    simp
  have hdrop : (listCursor be flt uid).toList.reverse.dropWhile (fun c => c != ':') =
      ':' :: (scopeToken be flt.bbox).toList.reverse := by
    rw [hrev, List.dropWhile_append_of_pos hall]
    simp
  simp [rpartitionColon, htake, hdrop]

theorem listCursor_ne_empty (uid : String) : listCursor be flt uid ≠ "" := by
  intro h
  have := congrArg String.toList h
  simp [listCursor, String.toList_append] at this

/-- The rows after a cursor of the list. -/
theorem listSpots_eq {shown : Spot → Bool} (hs : applyExploreFilters cfg flt = .ok shown)
    {limit : ℕ} {after : Option String} (hi : ∀ u ∈ after, ':' ∉ u.toList) :
    listSpots cfg be (after.map (listCursor be flt)) limit flt =
      (select fun d => (Keyset.candidates Spot.uid after (d.spots.select shown)).take
        (limit + 1)).bind
        (finishPage limit (listCursor be flt ∘ Spot.uid)) := by
  have hcand : ∀ (d : Db) (p : Spot → Bool), p = Keyset.isAfter Spot.uid after →
      orderByUid (d.spots.select fun s => shown s && p s) =
        Keyset.candidates Spot.uid after (d.spots.select shown) := by
    rintro d p rfl
    simp only [Keyset.candidates, Keyset.sort, orderByUid, Table.select, List.filter_filter]
    congr 2
    funext s
    exact Bool.and_comm _ _
  unfold listSpots
  cases after with
  | none =>
    simp only [hs, Option.map_none, Prog.ofExcept, Prog.bind_eq_bind, Prog.bind_ret,
      Prog.pure_eq_ret]
    refine congrArg₂ Prog.bind (congrArg select (funext fun d => ?_)) rfl
    exact congrArg (List.take _) (hcand d _ rfl)
  | some u =>
    have hne := listCursor_ne_empty be flt u
    have hp := rpartitionColon_listCursor be flt (hi u rfl)
    simp only [hs, Option.map_some, Prog.ofExcept, Prog.bind_eq_bind, Prog.bind_ret,
      Prog.pure_eq_ret, if_neg hne, hp, rejectScopeMismatch, ne_eq, not_true_eq_false, if_false]
    refine congrArg₂ Prog.bind (congrArg select (funext fun d => ?_)) rfl
    exact congrArg (List.take _) (hcand d _ rfl)

/-- The public list computes keyset pages. -/
theorem pagedBy_listSpots {shown : Spot → Bool} (hs : applyExploreFilters cfg flt = .ok shown) :
    PagedBy (fun cursor limit => listSpots cfg be cursor limit flt)
      (fun d => d.spots.select shown) Spot.uid NoColons (listCursor be flt)
      (fun u => ':' ∉ u.toList) where
  distinct d _ := (List.filter_sublist.map Spot.uid).nodup d.spots.nodup
  issues d hd s hmem := hd s (Table.mem_select.1 hmem).1
  answers d _ limit hl after hi := by
    rw [listSpots_eq cfg be flt hs hi]
    obtain ⟨more, hans⟩ := answers_finishPage hl d Spot.uid after
      (d.spots.select shown) (listCursor be flt)
    exact ⟨more, (Answers.bind (Answers.read _) hans).answer_eq⟩

end ListSpots

/-! ## Search -/

section SearchSpots

variable (cfg : Settings) (be : Backend) (query : String) (flt : ExploreFilter)

/-- The sort key of a search, best first. -/
def searchOrder (s : Spot) : (ℚ ×ₗ ℚ ×ₗ String)ᵒᵈ := OrderDual.toDual (searchKey be query s)

/-- The cursor of a search page. -/
def searchCursor (k : (ℚ ×ₗ ℚ ×ₗ String)ᵒᵈ) : String :=
  let key := ofLex (OrderDual.ofDual k)
  encodeSearchCursor be key.1 (ofLex key.2).1 (ofLex key.2).2 (scopeToken be flt.bbox)

/-- The spots a search matches. -/
def searched (shown : Spot → Bool) (d : Db) : List Spot :=
  d.spots.select fun s => shown s && be.searchMatch s query

variable {be}

/-- A text the code writes as a cursor is read back, and is not empty. -/
theorem loadCursor_encode (hx : ExactTexts be) (fields : List (String × (ℚ ⊕ String))) :
    let v : Json :=
        .obj (fields.map fun p => (p.1, p.2.elim (fun q => .float (.fin (.num q))) .str))
    loadCursor be (be.b64encode (be.jsonDumps v)) = .ok v ∧
      be.b64encode (be.jsonDumps v) ≠ "" := by
  have hload := hx.json fields
  refine ⟨by simp only [loadCursor, hx.base64, Option.bind_some, hload], fun hempty => ?_⟩
  have hdec := hx.base64 (be.jsonDumps (.obj (fields.map fun p =>
    (p.1, p.2.elim (fun q => .float (.fin (.num q))) .str))))
  rw [hempty, hx.base64_empty] at hdec
  rw [← Option.some.inj hdec, hx.json_empty] at hload
  cases hload

theorem decodeSearchCursor_encode (hx : ExactTexts be) (score rating : ℚ) (uid scope : String) :
    decodeSearchCursor be (encodeSearchCursor be score rating uid scope) =
        .ok (.fin score, .fin rating, uid, scope) ∧
      encodeSearchCursor be score rating uid scope ≠ "" := by
  obtain ⟨hload, hne⟩ := loadCursor_encode hx
    [("r", .inl score), ("v", .inl rating), ("u", .inr uid), ("s", .inr scope)]
  refine ⟨?_, hne⟩
  unfold decodeSearchCursor
  rw [show encodeSearchCursor be score rating uid scope = be.b64encode (be.jsonDumps _) from rfl]
  erw [hload]
  rfl

/-- The row comparison with a cursor of finite values is the order of the keys. -/
theorem belowCursor_eq (score rating : ℚ) (uid : String) (s : Spot) :
    belowCursor be query (.fin score, .fin rating, uid) s =
      Keyset.isAfter (searchOrder be query)
        (some (OrderDual.toDual (toLex (score, toLex (rating, uid))))) s := by
  have hlt : ((OrderDual.toDual (toLex (score, toLex (rating, uid))) : (ℚ ×ₗ ℚ ×ₗ String)ᵒᵈ) <
      searchOrder be query s) ↔
      be.searchScore s query < score ∨ (be.searchScore s query = score ∧
        (s.ratingAvg < rating ∨ (s.ratingAvg = rating ∧ s.uid < uid))) := by
    rw [searchOrder, OrderDual.toDual_lt_toDual, searchKey, Prod.Lex.toLex_lt_toLex,
      Prod.Lex.toLex_lt_toLex]
  simp only [Keyset.isAfter, hlt, belowCursor, compareDouble]
  by_cases h₁ : be.searchScore s query < score
  · simp [h₁]
  · by_cases h₂ : be.searchScore s query = score
    · by_cases h₃ : s.ratingAvg < rating
      · simp [h₂, h₃]
      · by_cases h₄ : s.ratingAvg = rating <;> simp [h₂, h₃, h₄]
    · simp [h₁, h₂]

/-- The rows after a cursor of the search. -/
theorem searchSpots_eq (hx : ExactTexts be) {shown : Spot → Bool}
    (hs : applyExploreFilters cfg flt = .ok shown) {limit : ℕ}
    {after : Option (ℚ ×ₗ ℚ ×ₗ String)ᵒᵈ} :
    searchSpots cfg be query flt (after.map (searchCursor be flt)) limit =
      (select fun d => (Keyset.candidates (searchOrder be query) after
        (searched be query shown d)).take (limit + 1)).bind
        (finishPage limit (searchCursor be flt ∘ searchOrder be query)) := by
  have hcand : ∀ (d : Db) (p : Spot → Bool), p = Keyset.isAfter (searchOrder be query) after →
      orderBySearch be query (d.spots.select fun s => shown s && be.searchMatch s query && p s) =
        Keyset.candidates (searchOrder be query) after (searched be query shown d) := by
    rintro d p rfl
    simp only [Keyset.candidates, Keyset.sort, orderBySearch, searched, Table.select,
      List.filter_filter]
    congr 2
    funext s
    exact Bool.and_comm _ _
  unfold searchSpots
  cases after with
  | none =>
    simp only [hs, Option.map_none, Prog.ofExcept, Prog.bind_eq_bind, Prog.bind_ret,
      Prog.pure_eq_ret]
    refine congrArg₂ Prog.bind (congrArg select (funext fun d => ?_)) rfl
    exact congrArg (List.take _) (hcand d _ rfl)
  | some k =>
    obtain ⟨hdec, hne⟩ := decodeSearchCursor_encode hx (ofLex (OrderDual.ofDual k)).1
      (ofLex (ofLex (OrderDual.ofDual k)).2).1 (ofLex (ofLex (OrderDual.ofDual k)).2).2
      (scopeToken be flt.bbox)
    simp only [hs, Option.map_some, searchCursor, Prog.ofExcept, Prog.bind_eq_bind, Prog.bind_ret,
      Prog.pure_eq_ret, if_neg hne, hdec, rejectScopeMismatch, ne_eq, not_true_eq_false, if_false]
    refine congrArg₂ Prog.bind (congrArg select (funext fun d => ?_)) rfl
    exact congrArg (List.take _) (hcand d _ (funext fun s => belowCursor_eq query _ _ _ s))

/-- Search computes keyset pages. -/
theorem pagedBy_searchSpots (hx : ExactTexts be) {shown : Spot → Bool}
    (hs : applyExploreFilters cfg flt = .ok shown) :
    PagedBy (fun cursor limit => searchSpots cfg be query flt cursor limit)
      (searched be query shown) (searchOrder be query) (fun _ => True)
      (searchCursor be flt) (fun _ => True) where
  distinct d _ := by
    have hu : ((searched be query shown d).map Spot.uid).Nodup :=
      (List.filter_sublist.map Spot.uid).nodup d.spots.nodup
    have hcomp : (searched be query shown d).map Spot.uid =
        ((searched be query shown d).map (searchOrder be query)).map
          fun k => (ofLex (ofLex (OrderDual.ofDual k)).2).2 := by
      rw [List.map_map]
      rfl
    rw [hcomp] at hu
    exact List.Nodup.of_map _ hu
  issues _ _ _ _ := trivial
  answers d _ limit hl after _ := by
    rw [searchSpots_eq cfg query flt hx hs]
    obtain ⟨more, hans⟩ := answers_finishPage hl d (searchOrder be query) after
      (searched be query shown d) (searchCursor be flt)
    exact ⟨more, (Answers.bind (Answers.read _) hans).answer_eq⟩

end SearchSpots

/-! ## Messages -/

section Messages

variable {be : Backend} (conversationUid : String)

/-- The sort key of a message, newest first. -/
def messageOrder (m : Message) : (ℤ ×ₗ String)ᵒᵈ := OrderDual.toDual (messageKey m)

/-- The cursor of a page of messages. -/
def messageCursor (be : Backend) (k : (ℤ ×ₗ String)ᵒᵈ) : String :=
  encodeMessageCursor be (ofLex (OrderDual.ofDual k)).1 (ofLex (OrderDual.ofDual k)).2

/-- The messages of a conversation that are not deleted. -/
def liveMessages (d : Db) : List Message :=
  d.messages.select fun m => m.conversationUid == conversationUid && m.deletedAt.isNone

theorem decodeMessageCursor_encode (hx : ExactTexts be) (createdAt : Timestamp) (uid : String) :
    decodeMessageCursor be (encodeMessageCursor be createdAt uid) = .ok (createdAt, uid) ∧
      encodeMessageCursor be createdAt uid ≠ "" := by
  obtain ⟨hload, hne⟩ := loadCursor_encode hx
    [("t", .inr (be.isoformat createdAt)), ("u", .inr uid)]
  refine ⟨?_, hne⟩
  have hfields : messageCursorFields be
      (.obj [("t", .str (be.isoformat createdAt)), ("u", .str uid)]) = .ok (createdAt, uid) := by
    have hiso : timestampOf be (.str (be.isoformat createdAt)) = .ok createdAt := by
      simp only [timestampOf, hx.iso createdAt]
    show (timestampOf be (.str (be.isoformat createdAt))).bind _ = _
    rw [hiso]
    rfl
  unfold decodeMessageCursor
  rw [show encodeMessageCursor be createdAt uid = be.b64encode (be.jsonDumps _) from rfl]
  erw [hload]
  exact congrArg (Except.mapError _) hfields

/-- The rows after a cursor of the messages. -/
theorem listMessages_eq (hx : ExactTexts be) {limit : ℕ} {after : Option (ℤ ×ₗ String)ᵒᵈ} :
    listMessages be conversationUid (after.map (messageCursor be)) limit =
      (select fun d => (Keyset.candidates messageOrder after
        (liveMessages conversationUid d)).take (limit + 1)).bind
        (finishPage limit (messageCursor be ∘ messageOrder)) := by
  have hcand : ∀ (d : Db) (p : Message → Bool), p = Keyset.isAfter messageOrder after →
      orderByNewest (d.messages.select fun m =>
        m.conversationUid == conversationUid && m.deletedAt.isNone && p m) =
        Keyset.candidates messageOrder after (liveMessages conversationUid d) := by
    rintro d p rfl
    simp only [Keyset.candidates, Keyset.sort, orderByNewest, liveMessages, Table.select,
      List.filter_filter]
    congr 2
    funext m
    exact Bool.and_comm _ _
  unfold listMessages
  cases after with
  | none =>
    simp only [Option.map_none, Prog.bind_eq_bind, Prog.bind_ret, Prog.pure_eq_ret]
    refine congrArg₂ Prog.bind (congrArg select (funext fun d => ?_)) rfl
    exact congrArg (List.take _) (hcand d _ rfl)
  | some k =>
    obtain ⟨hdec, hne⟩ := decodeMessageCursor_encode hx (ofLex (OrderDual.ofDual k)).1
      (ofLex (OrderDual.ofDual k)).2
    simp only [Option.map_some, messageCursor, Prog.ofExcept, Prog.bind_eq_bind, Prog.bind_ret,
      Prog.pure_eq_ret, if_neg hne, hdec]
    refine congrArg₂ Prog.bind (congrArg select (funext fun d => ?_)) rfl
    exact congrArg (List.take _) (hcand d _ rfl)

/-- The message list computes keyset pages. -/
theorem pagedBy_listMessages (hx : ExactTexts be) :
    PagedBy (fun cursor limit => listMessages be conversationUid cursor limit)
      (liveMessages conversationUid) messageOrder
      (fun _ => True) (messageCursor be) (fun _ => True) where
  distinct d _ := by
    have hu : ((liveMessages conversationUid d).map Message.uid).Nodup :=
      (List.filter_sublist.map Message.uid).nodup d.messages.nodup
    have hcomp : (liveMessages conversationUid d).map Message.uid =
        ((liveMessages conversationUid d).map messageOrder).map
          fun k => (ofLex (OrderDual.ofDual k)).2 := by
      rw [List.map_map]
      rfl
    rw [hcomp] at hu
    exact List.Nodup.of_map _ hu
  issues _ _ _ _ := trivial
  answers d _ limit hl after _ := by
    rw [listMessages_eq conversationUid hx]
    obtain ⟨more, hans⟩ := answers_finishPage hl d messageOrder after
      (liveMessages conversationUid d) (messageCursor be)
    exact ⟨more, (Answers.bind (Answers.read _) hans).answer_eq⟩

end Messages

/-! ## The law of the three reads -/

/-- Along any chain of pages over changing databases the three paged reads never reject
an issued cursor, return strictly monotone keys and every lasting row exactly once; over
an unchanged database they return the sorted rows. -/
theorem keyset_pagination (cfg : Settings) {be : Backend} (hx : ExactTexts be) :
    (∀ flt shown, applyExploreFilters cfg flt = .ok shown →
      KeysetLaw (fun cursor limit => listSpots cfg be cursor limit flt)
        (fun d => d.spots.select shown) Spot.uid NoColons) ∧
    (∀ query flt shown, applyExploreFilters cfg flt = .ok shown →
      KeysetLaw (fun cursor limit => searchSpots cfg be query flt cursor limit)
        (fun d => d.spots.select fun s => shown s && be.searchMatch s query)
        (fun s => OrderDual.toDual (searchKey be query s)) fun _ => True) ∧
    (∀ conversationUid,
      KeysetLaw (fun cursor limit => listMessages be conversationUid cursor limit)
        (fun d => d.messages.select fun m =>
          m.conversationUid == conversationUid && m.deletedAt.isNone)
        (fun m => OrderDual.toDual (messageKey m)) fun _ => True) :=
  ⟨fun flt _ hs => (pagedBy_listSpots cfg be flt hs).law,
    fun query flt _ hs => (pagedBy_searchSpots cfg query flt hx hs).law,
    fun conversationUid => (pagedBy_listMessages conversationUid hx).law⟩

theorem Sample.exactTexts : ExactTexts Sample.backend where
  base64 _ := rfl
  base64_empty := rfl
  json := Sample.loads_dumps
  json_empty := rfl
  iso t := by
    simp only [Sample.backend, String.length_ofList, List.length_replicate, Encodable.encodek]

/-- Two spots. -/
def Sample.twoSpots : Db :=
    { Db.empty with spots := ⟨[Sample.spot "b", Sample.spot "a"], by decide⟩ }

/-- Two pages of one spot each, and the law for their chain. -/
theorem keyset_pagination_two_spots :
    ∃ pages, requestPages (fun cursor limit =>
      listSpots Sample.settings Sample.backend cursor limit {})
        none [(Sample.twoSpots, 1), (Sample.twoSpots, 1)] = .ok pages ∧
      pages.map (fun p => (p.1.map Spot.uid, p.2)) = [(["a"], some ":a"), (["b"], none)] ∧
      (returned pages).Pairwise fun a b => a.uid < b.uid := by
  have hlaw := (keyset_pagination Sample.settings Sample.exactTexts).1 {} _ rfl
  have hcolon : ∀ s ∈ Sample.twoSpots.spots.rows, ':' ∉ s.uid.toList := by decide
  have hv : Valid NoColons [(Sample.twoSpots, 1), (Sample.twoSpots, 1)] := by
    intro st hst
    have heq : st = (Sample.twoSpots, 1) := by simpa using hst
    rw [heq]
    exact ⟨hcolon, le_rfl⟩
  obtain ⟨pages, hpages⟩ := hlaw.accepted _ hv
  have hshown : (requestPages
      (fun cursor limit => listSpots Sample.settings Sample.backend cursor limit {}) none
      [(Sample.twoSpots, 1), (Sample.twoSpots, 1)]).map
        (fun pages => pages.map fun p => (p.1.map Spot.uid, p.2)) =
      .ok [(["a"], some ":a"), (["b"], none)] := by decide +kernel
  rw [hpages] at hshown
  exact ⟨pages, hpages, Except.ok.inj hshown, hlaw.monotone _ _ hv hpages⟩

end Vivac
