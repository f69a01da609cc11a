import Vivac.Core.Errors

/-!
# The limit on the body of a bulk load

`enforce_spots_bulk_size` refuses a request that declares too long a body, and reads the stream of
the others only as long as it keeps to the limit. The request goes through exactly when neither the
header nor the stream is too long, with its whole body, however the stream is cut into chunks
(`enforceSpotsBulkSize_spec`).
-/

set_option autoImplicit false

namespace Vivac

open Lib

def spotsBulkMaxBytes : ℕ := 5 * 1024 * 1024

/-- An `AppException` with a status of its own. -/
structure AppException where
  code : ErrorCode
  message : String
  statusCode : ℕ
  deriving DecidableEq

/-- `_too_large()`. -/
def tooLarge : AppException := ⟨.validationError, "Payload exceeds 5 MiB limit", 413⟩

/-- A request: its header, the chunks that its stream yields, and the body stored in it. -/
structure BulkRequest where
  contentLength : Option String
  stream : List (List UInt8)
  body : Option (List UInt8) := none

/-- The variables of the loop. -/
structure Retained where
  chunks : List (List UInt8) := []
  received : ℕ := 0

/-- One turn of the loop. -/
def readChunk (st : Retained) (chunk : List UInt8) : Except AppException Retained :=
  let received := st.received + chunk.length
  if spotsBulkMaxBytes < received then .error tooLarge else .ok ⟨st.chunks ++ [chunk], received⟩

/-- The loop. -/
def readStream : Retained → List (List UInt8) → Except AppException Retained
  | st, [] => .ok st
  | st, chunk :: stream => (readChunk st chunk).bind fun st => readStream st stream

/-- The header is a number beyond the limit; a header that is no number is passed over. -/
def declaresTooMuch (contentLength : Option String) : Bool :=
  (contentLength.bind Py.int).any fun declared => decide ((spotsBulkMaxBytes : ℤ) < declared)

/-- The request afterwards. -/
def enforceSpotsBulkSize (request : BulkRequest) : Except AppException BulkRequest :=
  if declaresTooMuch request.contentLength then .error tooLarge
  else (readStream {} request.stream).map fun st => { request with body := some st.chunks.flatten }

/-! ## The loop -/

/-- What the loop has read so far is what it retains, and is within the limit. -/
structure Retains (read : List (List UInt8)) (st : Retained) : Prop where
  chunks : st.chunks = read
  received : st.received = read.flatten.length
  within : read.flatten.length ≤ spotsBulkMaxBytes

theorem retains_nil : Retains [] {} := ⟨rfl, rfl, Nat.zero_le _⟩

/-- A turn of the loop goes on exactly when the chunk keeps to the limit. -/
theorem readChunk_cases {read : List (List UInt8)} {st : Retained} (h : Retains read st)
    (chunk : List UInt8) :
    ((read ++ [chunk]).flatten.length ≤ spotsBulkMaxBytes ∧
      ∃ st', readChunk st chunk = .ok st' ∧ Retains (read ++ [chunk]) st') ∨
    (spotsBulkMaxBytes < (read ++ [chunk]).flatten.length ∧ readChunk st chunk =
      .error tooLarge) := by
  have hreceived : st.received + chunk.length = (read ++ [chunk]).flatten.length := by
    rw [h.received, List.flatten_append, List.length_append]
    simp
  unfold readChunk
  dsimp only
  by_cases hlong : spotsBulkMaxBytes < st.received + chunk.length
  · rw [if_pos hlong]
    exact .inr ⟨hreceived ▸ hlong, rfl⟩
  · rw [if_neg hlong]
    have hwithin : (read ++ [chunk]).flatten.length ≤ spotsBulkMaxBytes :=
      hreceived ▸ not_lt.1 hlong
    exact .inl ⟨hwithin, _, rfl, by rw [h.chunks], hreceived, hwithin⟩

/-- The loop ends with the whole stream, or as soon as the stream goes beyond the limit. -/
theorem readStream_cases {read : List (List UInt8)} {st : Retained} (h : Retains read st)
    (stream : List (List UInt8)) :
    ((read ++ stream).flatten.length ≤ spotsBulkMaxBytes ∧
      ∃ st', readStream st stream = .ok st' ∧ Retains (read ++ stream) st') ∨
    (spotsBulkMaxBytes < (read ++ stream).flatten.length ∧
      readStream st stream = .error tooLarge) := by
  induction stream generalizing read st with
  | nil =>
      rw [List.append_nil]
      exact .inl ⟨h.within, st, rfl, h⟩
  | cons chunk stream ih =>
      have hassoc : read ++ chunk :: stream = read ++ [chunk] ++ stream := by simp
      rw [hassoc, readStream]
      rcases readChunk_cases h chunk with ⟨-, st', hst', hretains⟩ | ⟨hlong, herror⟩
      · rw [hst']
        exact ih hretains
      · -- the rest of the stream makes it no shorter
        rw [herror]
        refine .inr ⟨?_, rfl⟩
        rw [List.flatten_append, List.length_append]
        omega

theorem not_declaresTooMuch_iff {contentLength : Option String} :
    declaresTooMuch contentLength = false ↔
      ∀ declared, contentLength.bind Py.int = some declared →
        declared ≤ (spotsBulkMaxBytes : ℤ) := by
  unfold declaresTooMuch
  cases contentLength.bind Py.int with
  | none => simp
  | some declared => simp

/-- How a request ends, by its header and the bytes of its stream. -/
theorem enforceSpotsBulkSize_eq (request : BulkRequest) : enforceSpotsBulkSize request =
    if declaresTooMuch request.contentLength = false ∧
        request.stream.flatten.length ≤ spotsBulkMaxBytes then
      .ok { request with body := some request.stream.flatten }
    else .error tooLarge := by
  unfold enforceSpotsBulkSize
  cases declaresTooMuch request.contentLength with
  | true => simp
  | false =>
      rw [if_neg Bool.false_ne_true]
      rcases readStream_cases retains_nil request.stream with ⟨hwithin, st, hst,
        hretains⟩ | ⟨hlong, herror⟩
      · rw [List.nil_append] at hwithin hretains
        rw [hst, if_pos ⟨rfl, hwithin⟩, Except.map, hretains.chunks]
      · rw [List.nil_append] at hlong
        rw [herror, if_neg fun h => absurd h.2 (not_le.2 hlong), Except.map]

/-- A request returns exactly when its header is no number beyond the limit and its chunks add up to
the limit at most, and is answered 413 otherwise. Then its body is the chunks one after the other.
The chunks retained never exceed the limit, and how the bytes are cut into chunks does not
matter. -/
theorem enforceSpotsBulkSize_spec (request : BulkRequest) :
    ((∃ request', enforceSpotsBulkSize request = .ok request') ↔
      (∀ declared, request.contentLength.bind Py.int = some declared →
        declared ≤ (spotsBulkMaxBytes : ℤ)) ∧
      (request.stream.map List.length).sum ≤ spotsBulkMaxBytes) ∧
    (∀ e, enforceSpotsBulkSize request = .error e → e = tooLarge ∧ e.statusCode = 413) ∧
    (∀ request', enforceSpotsBulkSize request = .ok request' →
      request' = { request with body := some request.stream.flatten }) ∧
    (∀ read rest st, request.stream = read ++ rest → readStream {} read = .ok st →
      (st.chunks.map List.length).sum ≤ spotsBulkMaxBytes) ∧
    (∀ request₂ : BulkRequest, request₂.contentLength = request.contentLength →
      request₂.stream.flatten = request.stream.flatten →
        (enforceSpotsBulkSize request₂).map BulkRequest.body =
          (enforceSpotsBulkSize request).map BulkRequest.body) := by
  refine ⟨?_, ?_, ?_, ?_, ?_⟩
  · rw [enforceSpotsBulkSize_eq, ← not_declaresTooMuch_iff, ← List.length_flatten]
    constructor
    · rintro ⟨request', h⟩
      split at h
      · assumption
      · cases h
    · intro h
      exact ⟨_, if_pos h⟩
  · intro e h
    rw [enforceSpotsBulkSize_eq] at h
    split at h
    · cases h
    · cases h
      exact ⟨rfl, rfl⟩
  · intro request' h
    rw [enforceSpotsBulkSize_eq] at h
    split at h
    · cases h
      rfl
    · cases h
  · intro read rest st _ hst
    rcases readStream_cases retains_nil read with ⟨-, st', hst', hretains⟩ | ⟨-, herror⟩
    · rw [hst] at hst'
      cases hst'
      rw [hretains.chunks, ← List.length_flatten]
      exact hretains.within
    · rw [hst] at herror
      cases herror
  · intro request₂ hheader hbytes
    rw [enforceSpotsBulkSize_eq, enforceSpotsBulkSize_eq, hheader, hbytes]
    split <;> rfl

end Vivac
