import Vivac.Lib.PyValues
import Vivac.Crud.Message

/-!
# Decoding a cursor

`_decode_search_cursor` and the message `_decode_cursor`, on any Python string, with the exceptions
that escape them. What the JSON parser, `str` and `fromisoformat` do is a parameter.

A decoder refuses with a validation error or returns what the following query can use, except on
the payloads of `SearchHarm` and `MessageHarm`, and on text that nests too deep for the parser
(`cursor_decoding_iff`). On text without surrogates the decoders are the ones that the paged reads
run (`decodeSearchCursor_ofString`, `decodeMessageCursor_ofString`).
-/

set_option autoImplicit false

namespace Vivac

open Lib

open Lib.Py (CodePoint Text Value Fault Datetime)

/-- The library functions behind a cursor: `json.loads` of bytes, `str` of what is no string, and
`datetime.fromisoformat`. -/
structure JsonLibrary where
  loads : List ℕ → Except Fault Value
  str : Value → Except Fault Text
  fromisoformat : Text → Except Fault Datetime

namespace JsonLibrary

variable (L : JsonLibrary)

/-- `json.loads(base64.urlsafe_b64decode(cursor.encode()))`. -/
def loadPayload (cursor : Text) : Except Fault Value :=
  match cursor.toString?.bind Base64.decodeText with
  | some bytes => L.loads bytes
  | none => .error .value

/-- `str(value)`. -/
def strOf (v : Value) : Except Fault Text :=
  match v with
  | .str s => .ok s
  | v => L.str v

/-- `datetime.fromisoformat(value)`, which takes a string only. -/
def timestampOf (v : Value) : Except Fault Datetime :=
  match v with
  | .str t => L.fromisoformat t
  | _ => .error .type

/-- `float(payload[key])`. -/
def floatAt (payload : Value) (key : String) : Except Fault PyFloat :=
  (payload.subscript key).bind Value.toFloat

/-- `str(payload[key])`. -/
def textAt (payload : Value) (key : String) : Except Fault Text :=
  (payload.subscript key).bind L.strOf

/-- `str(payload.get("s", ""))`. -/
def scopeAt (payload : Value) : Except Fault Text :=
  (payload.get "s" (.str [])).bind L.strOf

/-- `datetime.fromisoformat(payload["t"])`. -/
def timeAt (payload : Value) : Except Fault Datetime :=
  (payload.subscript "t").bind L.timestampOf

/-- `except (ValueError, KeyError, TypeError) as exc: raise AppException(..) from exc`. -/
def rescue (message : String) (fault : Fault) : Exc ⊕ Fault :=
  if fault.isCaught then .inl (.app .validationError message) else .inr fault

/-- The tuple of a search cursor's payload. -/
def searchFields (payload : Value) : Except Fault (PyFloat × PyFloat × Text × Text) :=
  (floatAt payload "r").bind fun r =>
    (floatAt payload "v").bind fun v =>
      (L.textAt payload "u").bind fun u =>
        (L.scopeAt payload).bind fun s => .ok (r, v, u, s)

/-- `_decode_search_cursor`. -/
def decodeSearchCursor (cursor : Text) : Except (Exc ⊕ Fault) (PyFloat × PyFloat × Text × Text) :=
  ((L.loadPayload cursor).bind L.searchFields).mapError (rescue "Invalid cursor for search results")

/-- The tuple of a message cursor's payload. -/
def messageFields (payload : Value) : Except Fault (Datetime × Text) :=
  (L.timeAt payload).bind fun t => (L.textAt payload "u").bind fun u => .ok (t, u)

/-- `_decode_cursor`. -/
def decodeMessageCursor (cursor : Text) : Except (Exc ⊕ Fault) (Datetime × Text) :=
  ((L.loadPayload cursor).bind L.messageFields).mapError (rescue "Invalid cursor for messages")

end JsonLibrary

/-! ## What the query can use -/

/-- Two finite floats, a uid that can be a parameter, and a scope without NUL characters. -/
def UsableSearch (last : PyFloat × PyFloat × Text × Text) : Prop :=
  (∃ q, last.1 = .fin q) ∧ (∃ q, last.2.1 = .fin q) ∧ last.2.2.1.Storable ∧
    CodePoint.nul ∉ last.2.2.2

/-- An aware time in the range, and a uid that can be a parameter. -/
def UsableMessage (last : Datetime × Text) : Prop := last.1.Storable ∧ last.2.Storable

/-- The decoder raises a validation error, or returns what is usable. -/
def RejectsOrReturns {α : Type} (usable : α → Prop) (out : Except (Exc ⊕ Fault) α) : Prop :=
  EndsIn (fun e => ∃ message, e = .inl (.app .validationError message)) usable out

/-! ## The payloads that get through -/

def NotFinite (f : PyFloat) : Prop := f = .nan ∨ ∃ negative, f = .inf negative

theorem notFinite_iff {f : PyFloat} : NotFinite f ↔ ¬∃ q, f = .fin q := by
  cases f <;> simp [NotFinite]

theorem not_usableSearch_iff {r v : PyFloat} {u s : Text} :
    ¬UsableSearch (r, v, u, s) ↔ NotFinite r ∨ NotFinite v ∨ ¬u.Storable ∨ CodePoint.nul ∈ s := by
  simp only [UsableSearch, notFinite_iff, not_and_or, not_not]

theorem not_usableMessage_iff {t : Datetime} {u : Text} :
    ¬UsableMessage (t, u) ↔ ¬t.Storable ∨ ¬u.Storable := not_and_or

section Harm

variable (L : JsonLibrary) (payload : Value)

/-- A search payload on which something else than a validation error escapes, or of which something
that is not usable is returned. The cases are in the order of evaluation. -/
inductive SearchHarm : Prop
  | hugeScore {n : ℤ} (hr : payload.subscript "r" = .ok (.int n)) (hn : Value.Huge n)
  | hugeRating {r : PyFloat} {n : ℤ} (hr : JsonLibrary.floatAt payload "r" = .ok r)
      (hv : payload.subscript "v" = .ok (.int n)) (hn : Value.Huge n)
  | deepUid {r v : PyFloat} {x : Value} {f : Fault} (hr : JsonLibrary.floatAt payload "r" = .ok r)
      (hv : JsonLibrary.floatAt payload "v" = .ok v) (hx : payload.subscript "u" = .ok x)
      (hf : L.strOf x = .error f) (hescapes : f.isCaught = false)
  | deepScope {r v : PyFloat} {u : Text} {x : Value} {f : Fault}
      (hr : JsonLibrary.floatAt payload "r" = .ok r) (hv : JsonLibrary.floatAt payload "v" = .ok v)
      (hu : L.textAt payload "u" = .ok u) (hx : payload.get "s" (.str []) = .ok x)
      (hf : L.strOf x = .error f) (hescapes : f.isCaught = false)
  | unusable {r v : PyFloat} {u s : Text} (hr : JsonLibrary.floatAt payload "r" = .ok r)
      (hv : JsonLibrary.floatAt payload "v" = .ok v) (hu : L.textAt payload "u" = .ok u)
      (hs : L.scopeAt payload = .ok s)
      (h : NotFinite r ∨ NotFinite v ∨ ¬u.Storable ∨ CodePoint.nul ∈ s)

/-- The same for the payload of a message cursor. -/
inductive MessageHarm : Prop
  | time {x : Value} {f : Fault} (hx : payload.subscript "t" = .ok x)
      (hf : L.timestampOf x = .error f) (hescapes : f.isCaught = false)
  | deepUid {t : Datetime} {x : Value} {f : Fault} (ht : L.timeAt payload = .ok t)
      (hx : payload.subscript "u" = .ok x) (hf : L.strOf x = .error f)
      (hescapes : f.isCaught = false)
  | unusable {t : Datetime} {u : Text} (ht : L.timeAt payload = .ok t)
      (hu : L.textAt payload "u" = .ok u) (h : ¬t.Storable ∨ ¬u.Storable)

/-- The parser fails on the cursor's text with an exception that is not caught. -/
def ParserEscapes (cursor : Text) : Prop :=
  ∃ f, L.loadPayload cursor = .error f ∧ f.isCaught = false

end Harm

/-! ## What a decoder does -/

theorem rejectsOrReturns_iff {α : Type} {usable : α → Prop} {message : String}
    {x : Except Fault α} :
    RejectsOrReturns usable (x.mapError (JsonLibrary.rescue message)) ↔
      EndsIn (fun f => f.isCaught = true) usable x := by
  have hraised : ∀ f : Fault,
      (∃ text, JsonLibrary.rescue message f = .inl (.app .validationError text)) ↔
        f.isCaught = true := by
    intro f
    unfold JsonLibrary.rescue
    split
    · rename_i h
      exact iff_of_true ⟨message, rfl⟩ h
    · rename_i h
      exact iff_of_false (by simp) h
  rw [RejectsOrReturns, endsIn_mapError]
  simp only [hraised]

section Fields

variable {L : JsonLibrary} {payload : Value}

/-- What converts a field: the accessor's exceptions are caught, so what escapes comes from the
conversion. -/
theorem field_escapes_iff {α : Type} {key : String} {convert : Value → Except Fault α} :
    (∃ f, (payload.subscript key).bind convert = .error f ∧ ¬f.isCaught = true) ↔
      ∃ x, payload.subscript key = .ok x ∧ ∃ f, convert x = .error f ∧ f.isCaught = false := by
  simp only [Bool.not_eq_true]
  cases hx : payload.subscript key with
  | error f =>
      have hcaught := Value.isCaught_of_subscript hx
      simp [Except.bind, hcaught]
  | ok x => simp [Except.bind]

theorem floatAt_escapes_iff {key : String} :
    (∃ f, JsonLibrary.floatAt payload key = .error f ∧ ¬f.isCaught = true) ↔
      ∃ n, payload.subscript key = .ok (.int n) ∧ Value.Huge n := by
  unfold JsonLibrary.floatAt
  rw [field_escapes_iff]
  simp only [Value.toFloat_escapes_iff]
  constructor
  · rintro ⟨_, hx, n, rfl, hn⟩
    exact ⟨n, hx, hn⟩
  · rintro ⟨n, hx, hn⟩
    exact ⟨_, hx, n, rfl, hn⟩

theorem textAt_escapes_iff {key : String} :
    (∃ f, L.textAt payload key = .error f ∧ ¬f.isCaught = true) ↔
      ∃ x, payload.subscript key = .ok x ∧ ∃ f, L.strOf x = .error f ∧ f.isCaught = false :=
  field_escapes_iff

theorem timeAt_escapes_iff :
    (∃ f, L.timeAt payload = .error f ∧ ¬f.isCaught = true) ↔
      ∃ x, payload.subscript "t" = .ok x ∧ ∃ f, L.timestampOf x = .error f ∧ f.isCaught = false :=
  field_escapes_iff

/-- The payload has `get`, since its score was read: only `str` is left to fail. -/
theorem scopeAt_escapes_iff {r : PyFloat} (hr : JsonLibrary.floatAt payload "r" = .ok r) :
    (∃ f, L.scopeAt payload = .error f ∧ ¬f.isCaught = true) ↔
      ∃ x, payload.get "s" (.str []) = .ok x ∧ ∃ f, L.strOf x = .error f ∧ f.isCaught = false := by
  obtain ⟨score, hscore⟩ : ∃ score, payload.subscript "r" = .ok score := by
    cases hx : payload.subscript "r" with
    | ok score => exact ⟨score, rfl⟩
    | error f =>
        rw [JsonLibrary.floatAt, hx] at hr
        cases hr
  obtain ⟨x, hx⟩ : ∃ x, payload.get "s" (.str []) = .ok x := Value.get_of_subscript hscore
  unfold JsonLibrary.scopeAt
  rw [hx]
  simp [Except.bind]

/-- A search payload ends badly in one of the ways of `SearchHarm`. -/
theorem not_endsIn_searchFields_iff :
    ¬EndsIn (fun f => f.isCaught = true) UsableSearch (L.searchFields payload) ↔
      SearchHarm L payload := by
  unfold JsonLibrary.searchFields
  simp only [endsIn_bind, not_endsIn_iff, floatAt_escapes_iff, textAt_escapes_iff]
  constructor
  · rintro (⟨n, hn, hhuge⟩ | ⟨r, hr,
      ⟨n, hn, hhuge⟩ | ⟨v, hv, ⟨x, hx, f, hf, hescapes⟩ | ⟨u, hu, h⟩⟩⟩)
    · exact .hugeScore hn hhuge
    · exact .hugeRating hr hn hhuge
    · exact .deepUid hr hv hx hf hescapes
    · rw [scopeAt_escapes_iff hr] at h
      rcases h with ⟨x, hx, f, hf, hescapes⟩ | ⟨s, hs, ⟨f, hf, -⟩ | ⟨last, hlast, h⟩⟩
      · exact .deepScope hr hv hu hx hf hescapes
      · cases hf
      · cases hlast
        exact .unusable hr hv hu hs (not_usableSearch_iff.1 h)
  · intro h
    cases h with
    | hugeScore hr hn => exact .inl ⟨_, hr, hn⟩
    | hugeRating hr hv hn => exact .inr ⟨_, hr, .inl ⟨_, hv, hn⟩⟩
    | deepUid hr hv hx hf hescapes =>
        exact .inr ⟨_, hr, .inr ⟨_, hv, .inl ⟨_, hx, _, hf, hescapes⟩⟩⟩
    | deepScope hr hv hu hx hf hescapes =>
        exact .inr ⟨_, hr, .inr ⟨_, hv, .inr ⟨_, hu,
          .inl ((scopeAt_escapes_iff hr).2 ⟨_, hx, _, hf, hescapes⟩)⟩⟩⟩
    | unusable hr hv hu hs h =>
        exact .inr ⟨_, hr, .inr ⟨_, hv, .inr ⟨_, hu, .inr ⟨_, hs, .inr ⟨_, rfl,
          not_usableSearch_iff.2 h⟩⟩⟩⟩⟩

/-- A message payload ends badly in one of the ways of `MessageHarm`. -/
theorem not_endsIn_messageFields_iff :
    ¬EndsIn (fun f => f.isCaught = true) UsableMessage (L.messageFields payload) ↔
      MessageHarm L payload := by
  unfold JsonLibrary.messageFields
  simp only [endsIn_bind, not_endsIn_iff, timeAt_escapes_iff, textAt_escapes_iff]
  constructor
  · rintro (⟨x, hx, f, hf, hescapes⟩ | ⟨t, ht, ⟨x, hx, f, hf, hescapes⟩ | ⟨u, hu, h⟩⟩)
    · exact .time hx hf hescapes
    · exact .deepUid ht hx hf hescapes
    · rcases h with ⟨f, hf, -⟩ | ⟨last, hlast, h⟩
      · cases hf
      · cases hlast
        exact .unusable ht hu (not_usableMessage_iff.1 h)
  · intro h
    cases h with
    | time hx hf hescapes => exact .inl ⟨_, hx, _, hf, hescapes⟩
    | deepUid ht hx hf hescapes => exact .inr ⟨_, ht, .inl ⟨_, hx, _, hf, hescapes⟩⟩
    | unusable ht hu h =>
        exact .inr ⟨_, ht, .inr ⟨_, hu, .inr ⟨_, rfl, not_usableMessage_iff.2 h⟩⟩⟩

end Fields

/-- Loading a payload and converting its fields ends well when the parser does and the payload is
not harmful. -/
theorem endsIn_loadPayload_iff {α : Type} {L : JsonLibrary} {cursor : Text} {usable : α → Prop}
    {fields : Value → Except Fault α} {harm : Value → Prop}
    (h : ∀ payload, ¬EndsIn (fun f => f.isCaught = true) usable (fields payload) ↔ harm payload) :
    EndsIn (fun f => f.isCaught = true) usable ((L.loadPayload cursor).bind fields) ↔
      ¬ParserEscapes L cursor ∧ ∀ payload, L.loadPayload cursor = .ok payload → ¬harm payload := by
  rw [endsIn_bind, ParserEscapes]
  cases hload : L.loadPayload cursor with
  | error f => simp
  | ok payload =>
      have hpayload : EndsIn (fun f => f.isCaught = true) usable (fields payload) ↔
          ¬harm payload := by
        rw [← h payload, not_not]
      simp [hpayload]

/-- The decoders reject or return what is usable, except when an exception of the parser escapes or
the payload is harmful. -/
theorem cursor_decoding_iff (L : JsonLibrary) (cursor : Text) :
    (RejectsOrReturns UsableSearch (L.decodeSearchCursor cursor) ↔
      ¬ParserEscapes L cursor ∧
        ∀ payload, L.loadPayload cursor = .ok payload → ¬SearchHarm L payload) ∧
    (RejectsOrReturns UsableMessage (L.decodeMessageCursor cursor) ↔
      ¬ParserEscapes L cursor ∧
        ∀ payload, L.loadPayload cursor = .ok payload → ¬MessageHarm L payload) :=
  ⟨rejectsOrReturns_iff.trans (endsIn_loadPayload_iff fun _ => not_endsIn_searchFields_iff),
    rejectsOrReturns_iff.trans (endsIn_loadPayload_iff fun _ => not_endsIn_messageFields_iff)⟩

/-! ## Texts without surrogates -/

mutual

/-- A value whose strings have no surrogates. -/
def ofJson : Json → Value
  | .null => .none
  | .bool b => .bool b
  | .int n => .int n
  | .float f => .float f
  | .str s => .str (.ofString s)
  | .arr xs => .list (ofJsons xs)
  | .obj fields => .dict (ofJsonFields fields)

def ofJsons : List Json → List Value
  | [] => []
  | x :: xs => ofJson x :: ofJsons xs

def ofJsonFields : List (String × Json) → List (Text × Value)
  | [] => []
  | (key, x) :: fields => (.ofString key, ofJson x) :: ofJsonFields fields

end

def ofJsonFault : JsonFault → Fault
  | .value => .value
  | .key => .key
  | .type => .type
  | .overflow => .overflow

/-- A computation on such values, seen as one on all values. -/
def lift {α β : Type} (f : α → β) (x : Except JsonFault α) : Except Fault β :=
  (x.map f).mapError ofJsonFault

/-- The library does on texts without surrogates what the backend does. -/
structure JsonLibrary.Extends (L : JsonLibrary) (be : Backend) : Prop where
  loads : ∀ cursor : String, L.loadPayload (.ofString cursor) = lift ofJson (loadCursor be cursor)
  str : ∀ v : Json, (∀ s, v ≠ .str s) → L.str (ofJson v) = .ok (.ofString (be.jsonStr v))
  time : ∀ text : String, (L.fromisoformat (.ofString text)).map Datetime.instant =
    match be.fromisoformat text with
    | some t => .ok t
    | none => .error .value

section Extends

variable {L : JsonLibrary} {be : Backend}

theorem lift_bind {α α' β β' : Type} {f : α → α'} {g : β → β'} {x : Except JsonFault α}
    {k : α → Except JsonFault β} {k' : α' → Except Fault β'} (h : ∀ a, k' (f a) = lift g (k a)) :
    (lift f x).bind k' = lift g (x.bind k) := by
  cases x with
  | error e => rfl
  | ok a => exact h a

theorem lookup_ofJsonFields (fields : List (String × Json)) (key : String) :
    (ofJsonFields fields).lookup (.ofString key) = (fields.lookup key).map ofJson := by
  induction fields with
  | nil => rfl
  | cons p fields ih =>
      obtain ⟨k, x⟩ := p
      rw [ofJsonFields, List.lookup_cons, List.lookup_cons, ih]
      by_cases h : key = k
      · rw [h]
        simp
      · have hne : Text.ofString key ≠ Text.ofString k := fun heq => h (Text.ofString_injective heq)
        rw [beq_false_of_ne h, beq_false_of_ne hne]

theorem subscript_ofJson (payload : Json) (key : String) :
    (ofJson payload).subscript key = lift ofJson (payload.subscript key) := by
  cases payload with
  | obj fields =>
      simp only [ofJson, Value.subscript, Json.subscript, lookup_ofJsonFields]
      cases fields.lookup key <;> rfl
  | null | bool | int | float | str | arr => rfl

theorem toFloat_ofJson (v : Json) : (ofJson v).toFloat = lift id v.toFloat := by
  cases v with
  | int n =>
      simp only [ofJson, Value.toFloat, Json.toFloat]
      cases Py.toDouble n <;> rfl
  | str s =>
      simp only [ofJson, Value.toFloat, Json.toFloat, Text.toString?_ofString, Option.bind_some]
      cases Py.float s <;> rfl
  | null | bool | float | arr | obj => rfl

theorem floatAt_ofJson (payload : Json) (key : String) :
    JsonLibrary.floatAt (ofJson payload) key =
      lift id ((payload.subscript key).bind Json.toFloat) := by
  rw [JsonLibrary.floatAt, subscript_ofJson]
  exact lift_bind toFloat_ofJson

theorem JsonLibrary.Extends.strOf (h : L.Extends be) (v : Json) :
    L.strOf (ofJson v) = .ok (.ofString (Vivac.strOf be v)) := by
  cases v with
  | str s => rfl
  | null => exact h.str .null (by simp)
  | bool b => exact h.str (.bool b) (by simp)
  | int n => exact h.str (.int n) (by simp)
  | float f => exact h.str (.float f) (by simp)
  | arr xs => exact h.str (.arr xs) (by simp)
  | obj fields => exact h.str (.obj fields) (by simp)

theorem JsonLibrary.Extends.textAt (h : L.Extends be) (payload : Json) (key : String) :
    L.textAt (ofJson payload) key =
      lift (fun v => .ofString (Vivac.strOf be v)) (payload.subscript key) := by
  rw [JsonLibrary.textAt, subscript_ofJson]
  cases payload.subscript key with
  | error f => rfl
  | ok v => exact h.strOf v

/-- What has a subscript has the scope, too. -/
theorem JsonLibrary.Extends.scopeAt (h : L.Extends be) {payload v : Json} {key : String}
    (hv : payload.subscript key = .ok v) :
    L.scopeAt (ofJson payload) =
      lift (fun v => .ofString (Vivac.strOf be v)) (payload.getD "s" (.str "")) := by
  cases payload with
  | obj fields =>
      have hget : (ofJson (.obj fields)).get "s" (.str []) =
          .ok (ofJson ((fields.lookup "s").getD (.str ""))) := by
        simp only [ofJson, Value.get, lookup_ofJsonFields]
        cases fields.lookup "s" <;> rfl
      rw [JsonLibrary.scopeAt, hget]
      exact h.strOf _
  | null | bool | int | float | str | arr => cases hv

/-- The tuple of a search cursor, with its texts as Python strings. -/
def ofSearchTuple (last : PyFloat × PyFloat × String × String) : PyFloat × PyFloat × Text × Text :=
  (last.1, last.2.1, .ofString last.2.2.1, .ofString last.2.2.2)

/-- The fields one after the other. -/
theorem searchCursorFields_eq (payload : Json) :
    searchCursorFields be payload =
      ((payload.subscript "r").bind Json.toFloat).bind fun r =>
        ((payload.subscript "v").bind Json.toFloat).bind fun v =>
          (payload.subscript "u").bind fun u =>
            (payload.getD "s" (.str "")).bind fun s =>
              .ok (r, v, Vivac.strOf be u, Vivac.strOf be s) := by
  cases hr : payload.subscript "r" with
  | error f =>
      simp only [searchCursorFields, hr]
      rfl
  | ok r =>
      cases hv : payload.subscript "v" with
      | error f =>
          simp only [searchCursorFields, hr, hv]
          rfl
      | ok v =>
          simp only [searchCursorFields, hr, hv]
          rfl

theorem JsonLibrary.Extends.searchFields (h : L.Extends be) (payload : Json) :
    L.searchFields (ofJson payload) = lift ofSearchTuple (searchCursorFields be payload) := by
  rw [searchCursorFields_eq]
  unfold JsonLibrary.searchFields
  rw [floatAt_ofJson]
  cases hr : payload.subscript "r" with
  | error f => rfl
  | ok score =>
      refine lift_bind fun r => ?_
      rw [floatAt_ofJson]
      refine lift_bind fun v => ?_
      rw [h.textAt]
      refine lift_bind fun u => ?_
      rw [h.scopeAt hr]
      exact lift_bind fun s => rfl

/-- An exception of the decoders of `crud/spot.py` and `crud/message.py`: a validation error, or the
one that escapes. -/
def ofExc : Exc → Exc ⊕ Fault
  | .overflow => .inr .overflow
  | e => .inl e

/-- On a text without surrogates the decoder is the one that `search_spots` runs. -/
theorem decodeSearchCursor_ofString (h : L.Extends be) (cursor : String) :
    L.decodeSearchCursor (.ofString cursor) =
      ((decodeSearchCursor be cursor).map ofSearchTuple).mapError ofExc := by
  rw [JsonLibrary.decodeSearchCursor, h.loads, lift_bind h.searchFields]
  unfold decodeSearchCursor
  cases (loadCursor be cursor).bind (searchCursorFields be) with
  | ok last => rfl
  | error f => cases f <;> rfl

theorem JsonLibrary.Extends.timestampOf (h : L.Extends be) (v : Json) :
    (L.timestampOf (ofJson v)).map Datetime.instant = lift id (Vivac.timestampOf be v) := by
  cases v with
  | str t =>
      simp only [ofJson, JsonLibrary.timestampOf, Vivac.timestampOf, h.time]
      cases be.fromisoformat t <;> rfl
  | null | bool | int | float | arr | obj => rfl

/-- The tuple of a message cursor by its instant. -/
theorem JsonLibrary.Extends.messageFields (h : L.Extends be) (payload : Json) :
    (L.messageFields (ofJson payload)).map (fun last => (last.1.instant, last.2)) =
      lift (fun last => (last.1, .ofString last.2)) (messageCursorFields be payload) := by
  unfold JsonLibrary.messageFields JsonLibrary.timeAt messageCursorFields
  rw [subscript_ofJson, h.textAt]
  cases payload.subscript "t" with
  | error f => rfl
  | ok v =>
      have htime := h.timestampOf v
      show (((L.timestampOf (ofJson v)).bind _).map _ : Except Fault (ℤ × Text)) =
        lift _ ((Vivac.timestampOf be v).bind _)
      cases hx : Vivac.timestampOf be v with
      | error f =>
          rw [hx] at htime
          cases hy : L.timestampOf (ofJson v) with
          | error f' =>
              rw [hy] at htime
              exact congrArg _ (Except.error.inj htime)
          | ok y =>
              rw [hy] at htime
              cases htime
      | ok x =>
          rw [hx] at htime
          cases hy : L.timestampOf (ofJson v) with
          | error f' =>
              rw [hy] at htime
              cases htime
          | ok y =>
              rw [hy] at htime
              have hinstant : y.instant = x := Except.ok.inj htime
              cases payload.subscript "u" with
              | error f => rfl
              | ok u =>
                  exact congrArg (fun t => Except.ok (t, Text.ofString (Vivac.strOf be u))) hinstant

/-- The same for the decoder that `list_messages` runs, which knows the time as an instant. -/
theorem decodeMessageCursor_ofString (h : L.Extends be) (cursor : String) :
    (L.decodeMessageCursor (.ofString cursor)).map (fun last => (last.1.instant, last.2)) =
      ((decodeMessageCursor be cursor).map fun last => (last.1, Text.ofString last.2)).mapError
        ofExc := by
  rw [JsonLibrary.decodeMessageCursor, h.loads]
  unfold decodeMessageCursor
  cases loadCursor be cursor with
  | error f => cases f <;> rfl
  | ok payload =>
      have hfields := h.messageFields payload
      show (((L.messageFields (ofJson payload)).mapError _).map _ :
          Except (Exc ⊕ Fault) (ℤ × Text)) =
        (((messageCursorFields be payload).mapError _).map _).mapError _
      cases hx : messageCursorFields be payload with
      | error f =>
          rw [hx] at hfields
          cases hy : L.messageFields (ofJson payload) with
          | error f' =>
              rw [hy] at hfields
              have hfault : f' = ofJsonFault f := Except.error.inj hfields
              rw [hfault]
              cases f <;> rfl
          | ok last =>
              rw [hy] at hfields
              cases hfields
      | ok last =>
          rw [hx] at hfields
          cases hy : L.messageFields (ofJson payload) with
          | error f' =>
              rw [hy] at hfields
              cases hfields
          | ok last' =>
              rw [hy] at hfields
              exact congrArg Except.ok (Except.ok.inj hfields)

end Extends

/-! ## Three cursors -/

namespace Sample

def nanText : String := "\x7b\"r\": NaN, \"v\": 0.0, \"u\": \"a\", \"s\": \"\"\x7d"

def hugeScore : ℤ := 10 ^ 309

/-- A score with 310 digits. -/
def hugeText : String :=
  "\x7b\"r\": 1" ++ String.ofList (List.replicate 309 '0') ++ ", \"v\": 0.0, \"u\": \"a\"\x7d"

def naiveText : String := "\x7b\"t\": \"2026-01-01T00:00:00\", \"u\": \"a\"\x7d"

def ofPairs (pairs : List (String × Value)) : Value :=
  .dict (pairs.map fun p => (Text.ofString p.1, p.2))

def nanPayload : Value := ofPairs
  [("r", .float .nan), ("v", .float (.fin 0)), ("u", .str (.ofString "a")), ("s", .str [])]

def hugePayload : Value := ofPairs
  [("r", .int hugeScore), ("v", .float (.fin 0)), ("u", .str (.ofString "a"))]

def naivePayload : Value := ofPairs
  [("t", .str (.ofString "2026-01-01T00:00:00")), ("u", .str (.ofString "a"))]

/-- The parser on the three texts. -/
def parse (text : String) : Except Fault Value :=
  if text = nanText then .ok nanPayload
  else if text = hugeText then .ok hugePayload
  else if text = naiveText then .ok naivePayload
  else .error .value

def jsonLibrary : JsonLibrary where
  loads bytes :=
    match Base64.ofUtf8 bytes with
    | some text => parse text
    | none => .error .value
  str := fun _ => .ok []
  fromisoformat text :=
    if text = .ofString "2026-01-01T00:00:00" then .ok ⟨63902822400000000, none⟩ else .error .value

/-- The cursor that carries a text. -/
def cursorOf (text : String) : Text := .ofString (Base64.encodeText text)

theorem loadPayload_cursorOf (text : String) :
    jsonLibrary.loadPayload (cursorOf text) = parse text := by
  rw [JsonLibrary.loadPayload, cursorOf, Text.toString?_ofString, Option.bind_some,
    Base64.decodeText_encodeText]
  simp only [jsonLibrary, Base64.ofUtf8_utf8]

end Sample

/-- A nan goes through as a score, an integer beyond the doubles raises an `OverflowError`, and a
time without an offset goes through. -/
theorem cursor_decoding_lets_through :
    ¬RejectsOrReturns UsableSearch
        (Sample.jsonLibrary.decodeSearchCursor (Sample.cursorOf Sample.nanText)) ∧
      ¬RejectsOrReturns UsableSearch
        (Sample.jsonLibrary.decodeSearchCursor (Sample.cursorOf Sample.hugeText)) ∧
      ¬RejectsOrReturns UsableMessage
        (Sample.jsonLibrary.decodeMessageCursor (Sample.cursorOf Sample.naiveText)) := by
  have hhugeNan : Sample.hugeText ≠ Sample.nanText := by decide +kernel
  have hnaiveNan : Sample.naiveText ≠ Sample.nanText := by decide +kernel
  have hnaiveHuge : Sample.naiveText ≠ Sample.hugeText := by decide +kernel
  refine ⟨?_, ?_, ?_⟩
  · rw [JsonLibrary.decodeSearchCursor, Sample.loadPayload_cursorOf, Sample.parse, if_pos rfl]
    rintro ⟨⟨q, hq⟩, -⟩
    cases hq
  · rw [JsonLibrary.decodeSearchCursor, Sample.loadPayload_cursorOf, Sample.parse,
      if_neg hhugeNan, if_pos rfl]
    have hhuge : Py.toDouble (Sample.hugeScore : ℚ) = .inf false := by decide +kernel
    have hfloat : Value.toFloat (.int Sample.hugeScore) = .error .overflow := by
      rw [Value.toFloat, hhuge]
    have hfields : Sample.jsonLibrary.searchFields Sample.hugePayload = .error .overflow := by
      have hscore : Sample.hugePayload.subscript "r" = .ok (.int Sample.hugeScore) := rfl
      simp only [JsonLibrary.searchFields, JsonLibrary.floatAt, hscore, Except.bind, hfloat]
    show ¬RejectsOrReturns UsableSearch
      ((Sample.jsonLibrary.searchFields Sample.hugePayload).mapError _)
    rw [hfields]
    rintro ⟨message, h⟩
    cases h
  · rw [JsonLibrary.decodeMessageCursor, Sample.loadPayload_cursorOf, Sample.parse,
      if_neg hnaiveNan, if_neg hnaiveHuge, if_pos rfl]
    rintro ⟨⟨offset, hoffset, -⟩, -⟩
    cases hoffset

end Vivac
