import Vivac.Core.SampleBackend
import Vivac.Endpoints.ImageStorage
import Vivac.Lib.LoneRuns
import Vivac.Lib.TextPatterns

/-!
# Upload keys

`presign_image_upload` makes the key of an upload, and `register_image` recognises it with the
pattern of `_pending_key_re`. Both describe one language for each spot: the folder of the spot, 22
letters or digits, and an extension (`passesKeyCheck_iff`). The languages of different spots are
disjoint, and final keys are determined by what they are made of (`upload_keys`).
-/

set_option autoImplicit false

namespace Vivac

open Lib App

/-- `_EXT_BY_CONTENT_TYPE`. -/
def extByContentType : List (String × String) :=
  [("image/jpeg", ".jpg"), ("image/png", ".png"), ("image/webp", ".webp")]

/-- `ALLOWED_CONTENT_TYPES`. -/
def allowedContentTypes : List String := ["image/jpeg", "image/png", "image/webp"]

/-- `ImagePresignRequest`, which its validator has passed. -/
structure ImagePresignRequest where
  contentType : String
  allowed : contentType ∈ allowedContentTypes

structure ImagePresignResponse where
  uploadUrl : String
  s3Key : String
  expiresIn : ℕ

namespace SpotImages

/-- The key that presign issues; `stem` is what `shortuuid.uuid()` returns. -/
def uploadKey (uid stem contentType : String) : String :=
  "uploads/pending" ++ "/" ++ uid ++ "/" ++ stem ++ (extByContentType.lookup contentType).getD ""

/-- `presign_image_upload`; `presignPut` is `generate_presigned_put`, which signs without the
network. -/
def presignImageUpload (cfg : Settings) (presignPut : String → String → Except Exc String)
    (expiresIn : ℕ) (peer : Peer) (credentials : Credentials) (uid stem : String)
    (payload : ImagePresignRequest) : App ImagePresignResponse := do
  let _ ← requireStaff credentials
  checkRateLimit uploadLimit peer credentials
  let _ ← InternalSpots.findSpot cfg uid
  let s3Key := uploadKey uid stem payload.contentType
  let uploadUrl ← Prog.ofExcept (presignPut s3Key payload.contentType)
  return { uploadUrl := uploadUrl, s3Key := s3Key, expiresIn := expiresIn }

/-- The class `[0-9A-Za-z]`. -/
def keyChars : List Char := ((List.range 128).map Char.ofNat).filter isKeyChar

/-- `_pending_key_re`. The escaped uid and the escaped extensions are literal. -/
def pendingKeyRe (spotUid : String) : RegularExpression Char :=
  Pattern.literal ("uploads/pending" ++ "/" ++ spotUid ++ "/").toList *
    (Pattern.oneOf keyChars ^ 22 *
      Pattern.choice (extByContentType.map fun p => Pattern.literal p.2.toList))

/-- `_pending_key_re(uid).fullmatch(s3_key)`. -/
def PassesKeyCheck (uid s3Key : String) : Prop := (pendingKeyRe uid).rmatch s3Key.toList = true

/-! ## The pattern -/

theorem isKeyChar_eq (c : Char) : isKeyChar c = c.isAlphanum := by
  have hupper : c.isUpper = decide ('A' ≤ c ∧ c ≤ 'Z') := rfl
  have hlower : c.isLower = (decide ('a' ≤ c) && decide (c ≤ 'z')) := rfl
  have hdigit : c.isDigit = (decide ('0' ≤ c) && decide (c ≤ '9')) := rfl
  have hall : c.isAlphanum = ((c.isUpper || c.isLower) || c.isDigit) := rfl
  rw [hall, hupper, hlower, hdigit, Bool.decide_and, isKeyChar]
  ac_rfl

theorem mem_keyChars {c : Char} : c ∈ keyChars ↔ isKeyChar c = true := by
  constructor
  · exact fun h => (List.mem_filter.1 h).2
  · intro h
    refine List.mem_filter.2 ⟨?_, h⟩
    have hsmall : c.toNat < 128 := by
      simp only [isKeyChar, Bool.or_eq_true, Bool.and_eq_true, decide_eq_true_eq, Char.le_def,
        UInt32.le_iff_toNat_le] at h
      have h9 : ('9' : Char).val.toNat = 57 := rfl
      have hZ : ('Z' : Char).val.toNat = 90 := rfl
      have hz : ('z' : Char).val.toNat = 122 := rfl
      show c.val.toNat < 128
      omega
    exact List.mem_map.2 ⟨c.toNat, List.mem_range.2 hsmall, Char.ofNat_toNat c⟩

/-- The format of uids, of the characters of a text. -/
theorem hasUidFormat_iff {text : String} :
    hasUidFormat text = true ↔ text.toList.length = 22 ∧ ∀ c ∈ text.toList, isKeyChar c = true := by
  simp only [hasUidFormat, Bool.and_eq_true, beq_iff_eq, List.all_eq_true, isKeyChar_eq,
    String.length_toList]

/-- What the pattern of a spot matches. -/
theorem passesKeyCheck_iff {uid s3Key : String} : PassesKeyCheck uid s3Key ↔
    ∃ stem ext, hasUidFormat stem = true ∧ ext ∈ extByContentType.map Prod.snd ∧
      s3Key = "uploads/pending" ++ "/" ++ uid ++ "/" ++ stem ++ ext := by
  rw [PassesKeyCheck, RegularExpression.rmatch_iff_matches', pendingKeyRe,
    RegularExpression.matches'_mul, RegularExpression.matches'_mul, Language.mem_mul]
  constructor
  · rintro ⟨folder, hfolder, key, hkey, hsplit⟩
    obtain ⟨stem, hstem, ext, hext, rfl⟩ := Language.mem_mul.1 hkey
    obtain ⟨hlength, hchars⟩ := Pattern.mem_oneOf_pow.1 hstem
    obtain ⟨r, hr, hmatch⟩ := Pattern.mem_choice.1 hext
    obtain ⟨p, hp, rfl⟩ := List.mem_map.1 hr
    refine ⟨String.ofList stem, p.2, ?_, List.mem_map_of_mem hp, ?_⟩
    · rw [hasUidFormat_iff, String.toList_ofList]
      exact ⟨hlength, fun c hc => mem_keyChars.1 (hchars c hc)⟩
    · apply String.toList_injective
      rw [← hsplit, Pattern.mem_literal.1 hfolder, Pattern.mem_literal.1 hmatch]
      simp [String.toList_append]
  · rintro ⟨stem, ext, hstem, hext, rfl⟩
    obtain ⟨hlength, hchars⟩ := hasUidFormat_iff.1 hstem
    obtain ⟨p, hp, rfl⟩ := List.mem_map.1 hext
    refine ⟨_, Pattern.mem_literal.2 rfl, stem.toList ++ p.2.toList, Language.mem_mul.2
      ⟨_, Pattern.mem_oneOf_pow.2 ⟨hlength, fun c hc => mem_keyChars.2 (hchars c hc)⟩, _,
        Pattern.mem_choice.2 ⟨_, List.mem_map_of_mem hp, Pattern.mem_literal.2 rfl⟩, rfl⟩, ?_⟩
    simp [String.toList_append]

/-- The key check of `register_image` is the full match of the pattern, and what it goes on with is
the group, the rest of the text after the folder. -/
theorem pendingKey_eq_some_iff {uid s3Key key : String} : pendingKey uid s3Key = some key ↔
    PassesKeyCheck uid s3Key ∧ s3Key = "uploads/pending" ++ "/" ++ uid ++ "/" ++ key := by
  have hfolder : "uploads/pending/" ++ uid ++ "/" = "uploads/pending" ++ "/" ++ uid ++ "/" := by
    have hsplit : "uploads/pending/" = "uploads/pending" ++ "/" := by decide +kernel
    rw [hsplit]
  have hexts : extByContentType.map Prod.snd = [".jpg", ".png", ".webp"] := rfl
  rw [passesKeyCheck_iff]
  simp only [pendingKey, hfolder, hexts]
  generalize "uploads/pending" ++ "/" ++ uid ++ "/" = folder
  constructor
  · intro h
    split at h
    · rename_i hmatch
      simp only [Bool.and_eq_true, beq_iff_eq, List.all_eq_true, List.contains_iff_mem] at hmatch
      obtain ⟨⟨⟨hbegins, hlength⟩, hchars⟩, hext⟩ := hmatch
      obtain ⟨rest, hrest⟩ := List.isPrefixOf_iff_prefix.1 hbegins
      rw [← hrest, List.drop_left] at hlength hchars hext h
      cases h
      have hwhole : s3Key = folder ++ String.ofList rest := by
        apply String.toList_injective
        rw [← hrest, String.toList_append, String.toList_ofList]
      refine ⟨⟨String.ofList (rest.take 22), _, ?_, hext, ?_⟩, hwhole⟩
      · rw [hasUidFormat_iff, String.toList_ofList]
        exact ⟨hlength, hchars⟩
      · rw [hwhole, String.append_assoc, ← String.ofList_append, List.take_append_drop]
    · cases h
  · rintro ⟨⟨stem, ext, hstem, hext, hsplit⟩, hwhole⟩
    obtain ⟨hlength, hchars⟩ := hasUidFormat_iff.1 hstem
    have hkey : key = stem ++ ext := by
      rw [hwhole, String.append_assoc] at hsplit
      apply String.toList_injective
      have hlists := congrArg String.toList hsplit
      rw [String.toList_append, String.toList_append] at hlists
      exact List.append_cancel_left hlists
    have htake : key.toList.take 22 = stem.toList := by
      rw [hkey, String.toList_append, List.take_left' hlength]
    have hdrop : key.toList.drop 22 = ext.toList := by
      rw [hkey, String.toList_append, List.drop_left' hlength]
    have hrest : s3Key.toList.drop folder.toList.length = key.toList := by
      rw [hwhole, String.toList_append, List.drop_left]
    have hbegins : folder.toList.isPrefixOf s3Key.toList = true := by
      rw [List.isPrefixOf_iff_prefix, hwhole, String.toList_append]
      exact List.prefix_append _ _
    rw [hrest, htake, hdrop, String.ofList_toList, String.ofList_toList, if_pos]
    simp only [hbegins, hlength, beq_self_eq_true, Bool.true_and, Bool.and_eq_true,
      List.all_eq_true, List.contains_iff_mem]
    exact ⟨hchars, hext⟩

/-- The check of the program, and that of the pattern. -/
theorem isSome_pendingKey {uid s3Key : String} :
    (pendingKey uid s3Key).isSome = true ↔ PassesKeyCheck uid s3Key := by
  rw [Option.isSome_iff_exists]
  constructor
  · rintro ⟨key, hkey⟩
    exact (pendingKey_eq_some_iff.1 hkey).1
  · intro h
    obtain ⟨stem, ext, -, -, hsplit⟩ := passesKeyCheck_iff.1 h
    refine ⟨stem ++ ext, pendingKey_eq_some_iff.2 ⟨h, ?_⟩⟩
    rw [hsplit, String.append_assoc]

/-- A request whose key does not pass registers nothing, whatever the storage and the database
answer. -/
theorem not_mayReturn_registerImage (cfg : Settings) (now : Timestamp)
    (mishaps : ImageRegistration.Mishaps) (limits : ImageLimits) (peer : Peer)
    (credentials : Credentials) (uid imageUid : String) {payload : SpotImageRegister}
    (h : ¬PassesKeyCheck uid payload.s3Key) (image : SpotImage) :
    ¬(ImageRegistration.registerImage cfg now mishaps limits peer credentials uid imageUid
      payload).MayReturn image := by
  intro hreturn
  obtain ⟨-, -, hlimited⟩ := Prog.mayReturn_bind.1 hreturn
  obtain ⟨-, -, hrest⟩ := Prog.mayReturn_bind.1 hlimited
  obtain ⟨key, hupload, -⟩ := Prog.mayReturn_bind.1 hrest
  obtain ⟨-, -, hcheck⟩ := Prog.mayReturn_bind.1 hupload
  have hnone : pendingKey uid payload.s3Key = none := by
    rw [← Option.not_isSome_iff_eq_none, isSome_pendingKey]
    exact h
  rw [hnone] at hcheck
  exact hcheck

/-! ## Keys of different spots -/

/-- Texts that begin with a uid and a slash. -/
theorem eq_of_uid_append {u u' rest rest' : String} (hu : hasUidFormat u = true)
    (hu' : hasUidFormat u' = true) (h : u ++ rest = u' ++ rest') : u = u' ∧ rest = rest' := by
  have hlists := congrArg String.toList h
  rw [String.toList_append, String.toList_append] at hlists
  have hlength : u.toList.length = u'.toList.length :=
    (hasUidFormat_iff.1 hu).1.trans (hasUidFormat_iff.1 hu').1.symm
  obtain ⟨huid, hrest⟩ := List.append_inj hlists hlength
  exact ⟨String.toList_injective huid, String.toList_injective hrest⟩

theorem eq_of_append_left {a rest rest' : String} (h : a ++ rest = a ++ rest') : rest = rest' := by
  have hlists := congrArg String.toList h
  rw [String.toList_append, String.toList_append] at hlists
  exact String.toList_injective (List.append_cancel_left hlists)

/-- A key passes for one spot at most. -/
theorem uid_of_passes {u u' s3Key : String} (hu : hasUidFormat u = true)
    (hu' : hasUidFormat u' = true) (h : PassesKeyCheck u s3Key) (h' : PassesKeyCheck u' s3Key) :
    u' = u := by
  obtain ⟨stem, ext, -, -, rfl⟩ := passesKeyCheck_iff.1 h
  obtain ⟨stem', ext', -, -, hsplit⟩ := passesKeyCheck_iff.1 h'
  simp only [String.append_assoc] at hsplit
  have hrest := eq_of_append_left (eq_of_append_left hsplit)
  exact (eq_of_uid_append hu hu' hrest).1.symm

/-- The extension of an allowed content type is there. -/
theorem ext_mem (payload : ImagePresignRequest) :
    (extByContentType.lookup payload.contentType).getD "" ∈ extByContentType.map Prod.snd := by
  have hall : ∀ t ∈ allowedContentTypes,
      (extByContentType.lookup t).getD "" ∈ extByContentType.map Prod.snd := by decide
  exact hall _ payload.allowed

/-- What presign answers. -/
theorem s3Key_of_mayReturn {cfg : Settings} {presignPut : String → String → Except Exc String}
    {expiresIn : ℕ} {peer : Peer} {credentials : Credentials} {uid stem : String}
    {payload : ImagePresignRequest} {response : ImagePresignResponse}
    (h : (presignImageUpload cfg presignPut expiresIn peer credentials uid stem payload).MayReturn
      response) : response.s3Key = uploadKey uid stem payload.contentType := by
  obtain ⟨-, -, hlimited⟩ := Prog.mayReturn_bind.1 h
  obtain ⟨-, -, hfound⟩ := Prog.mayReturn_bind.1 hlimited
  obtain ⟨-, -, hkey⟩ := Prog.mayReturn_bind.1 hfound
  obtain ⟨url, -, hresponse⟩ := Prog.mayReturn_bind.1 hkey
  cases hresponse
  rfl

theorem passes_uploadKey {u stem : String} (hstem : hasUidFormat stem = true)
    (payload : ImagePresignRequest) : PassesKeyCheck u (uploadKey u stem payload.contentType) :=
  passesKeyCheck_iff.2 ⟨stem, _, hstem, ext_mem payload, rfl⟩

end SpotImages

/-- The keys that pass for a spot are those of its folder with 22 letters or digits and an extension
that presign issues; a key that presign issues passes for its spot and no other; an accepted key is
determined by its final key, which passes for no spot. -/
theorem upload_keys :
    (∀ u k, ((SpotImages.pendingKey u k).isSome = true ↔ SpotImages.PassesKeyCheck u k) ∧
      (SpotImages.PassesKeyCheck u k ↔
        ∃ stem ext, hasUidFormat stem = true ∧ ext ∈ extByContentType.map Prod.snd ∧
          k = "uploads/pending" ++ "/" ++ u ++ "/" ++ stem ++ ext)) ∧
    (∀ (cfg : Settings) (presignPut : String → String → Except Exc String) (expiresIn : ℕ)
      (peer : Peer) (credentials : Credentials) (u stem : String) (payload : ImagePresignRequest)
      (response : ImagePresignResponse), hasUidFormat u = true → hasUidFormat stem = true →
      (SpotImages.presignImageUpload cfg presignPut expiresIn peer credentials u stem
        payload).MayReturn response →
      SpotImages.PassesKeyCheck u response.s3Key ∧
        ∀ u', hasUidFormat u' = true → SpotImages.PassesKeyCheck u' response.s3Key → u' = u) ∧
    ∀ u u' k k' key key', hasUidFormat u = true → hasUidFormat u' = true →
      SpotImages.pendingKey u k = some key → SpotImages.pendingKey u' k' = some key' →
      (ImageRegistration.finalKey u key = ImageRegistration.finalKey u' key' → u = u' ∧ k = k') ∧
        ∀ v, ¬SpotImages.PassesKeyCheck v (ImageRegistration.finalKey u key) := by
  refine ⟨fun u k => ⟨SpotImages.isSome_pendingKey, SpotImages.passesKeyCheck_iff⟩, ?_, ?_⟩
  · intro cfg presignPut expiresIn peer credentials u stem payload response hu hstem hreturn
    rw [SpotImages.s3Key_of_mayReturn hreturn]
    have hpasses := SpotImages.passes_uploadKey hstem payload (u := u)
    exact ⟨hpasses, fun u' hu' h' => SpotImages.uid_of_passes hu hu' hpasses h'⟩
  · intro u u' k k' key key' hu hu' hk hk'
    constructor
    · intro hsame
      simp only [ImageRegistration.finalKey, String.append_assoc] at hsame
      obtain ⟨rfl, hrest⟩ :=
        SpotImages.eq_of_uid_append hu hu' (SpotImages.eq_of_append_left hsame)
      have hkeys := SpotImages.eq_of_append_left hrest
      rw [(SpotImages.pendingKey_eq_some_iff.1 hk).2, (SpotImages.pendingKey_eq_some_iff.1 hk').2,
        hkeys]
      exact ⟨rfl, rfl⟩
    · intro v hpasses
      -- a final key begins with the letter of `spots`, a pending key with that of `uploads`
      obtain ⟨stem, ext, -, -, hsplit⟩ := SpotImages.passesKeyCheck_iff.1 hpasses
      have hhead := congrArg (fun text : String => text.toList.head?) hsplit
      simp [ImageRegistration.finalKey, String.toList_append] at hhead

namespace Sample

def uploadUid : String := "spotspotspotspotspotsp"

def shortUuid : String := "uuiduuiduuiduuiduuiduu"

theorem png_mem : "image/png" ∈ allowedContentTypes := by decide

def pngRequest : ImagePresignRequest := ⟨"image/png", png_mem⟩

/-- A staff user and a spot. -/
def uploading : Db :=
  { Db.empty with
    spots := ⟨[spot uploadUid], List.nodup_singleton _⟩
    users := ⟨[{ user "u" with isStaff := true }], List.nodup_singleton _⟩ }

def pngPresign : App ImagePresignResponse :=
  SpotImages.presignImageUpload settings (fun key _ => .ok key) 3600 {} (.access "u") uploadUid
    shortUuid pngRequest

end Sample

/-- Presign issues a key for a PNG image; it passes for its spot only, and its final key for
none. -/
theorem upload_keys_png : ∃ response key, Sample.pngPresign.MayReturn response ∧
    SpotImages.PassesKeyCheck Sample.uploadUid response.s3Key ∧
    (∀ u', hasUidFormat u' = true → SpotImages.PassesKeyCheck u' response.s3Key →
      u' = Sample.uploadUid) ∧
    SpotImages.pendingKey Sample.uploadUid response.s3Key = some key ∧
    ∀ v, ¬SpotImages.PassesKeyCheck v (ImageRegistration.finalKey Sample.uploadUid key) := by
  have hrun : (runAlone (fun i => exec i) () Sample.pngPresign
      (World.fresh Sample.uploading : State Unit)).any (fun out => out.1.isOk) = true := by
    decide +kernel
  obtain ⟨⟨r, s'⟩, hout, hok⟩ := (Option.any_eq_true _ _).1 hrun
  have huid : hasUidFormat Sample.uploadUid = true := by decide +kernel
  have hstem : hasUidFormat Sample.shortUuid = true := by decide +kernel
  cases r with
  | error e => cases hok
  | ok response =>
      have hreturn := mayReturn_of_runAlone hout
      obtain ⟨hlanguage, hissued, hfinal⟩ := upload_keys
      obtain ⟨hpasses, honly⟩ := hissued _ _ _ _ _ _ _ _ response huid hstem hreturn
      obtain ⟨key, hkey⟩ :=
        Option.isSome_iff_exists.1 ((hlanguage Sample.uploadUid response.s3Key).1.2 hpasses)
      exact ⟨response, key, hreturn, hpasses, honly, hkey,
        (hfinal _ _ _ _ _ _ huid huid hkey hkey).2⟩

end Vivac
