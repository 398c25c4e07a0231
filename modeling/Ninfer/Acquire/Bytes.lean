import Ninfer.Acquire.Base64
import Ninfer.Commons.Search

/-!
# Acquiring the bytes of a media source

`acquire_bytes` of `acquire.cpp` with `read_path`. A source is given as bytes, as a data URI, as a
URL or as a path; the file system is an environment, as the network is for `fetch_url`. Strings of
the source are byte strings.

## Main definitions

* `Source`, `FileSystem`: what is acquired, and what the code asks about a path
* `readPath`, `acquireBytes`: the functions of the source
* `OpensEmpty`: the source is a path, and the file that is opened is empty

## Main results

* `acquireBytes_data`: a base64 data URI within the limit gives its bytes
* `acquireBytes_sound_iff`: when what is returned is not empty
-/

namespace Ninfer.Acquire

open Fetch

/-- `SourceKind`. -/
inductive SourceKind
  | path
  | url
  | data
  | bytes
  deriving DecidableEq, Repr

/-- `Source`, without the media type, which `acquire_bytes` does not read. -/
structure Source where
  kind : SourceKind
  value : List UInt8 := []
  bytes : List UInt8 := []
  deriving DecidableEq, Repr

/-- What the code asks about paths. `weakly_canonical` and `relative` give no path on an error, and
`read` gives as many bytes as are asked for or fails. -/
structure FileSystem where
  weaklyCanonical : String → Option String
  isRegularFile : String → Bool
  relative : String → String → Option String
  fileSize : String → Option Nat
  opens : String → Bool
  tellEnd : String → Int
  read : String → (n : Nat) → Option (List.Vector UInt8 n)

/-- `data:`. -/
def kDataScheme : List UInt8 := [0x64, 0x61, 0x74, 0x61, 0x3a]

/-- `;base64`. -/
def kBase64Marker : List UInt8 := [0x3b, 0x62, 0x61, 0x73, 0x65, 0x36, 0x34]

/-- A byte string as a text: every byte is the character of its number. -/
def text (bytes : List UInt8) : String := String.ofList (bytes.map Char.ofUInt8)

section Functions

variable (env : Env) (files : FileSystem) (mediaRoot : String) (policy : Policy)

/-- The result of a function that does not ask the environment. -/
def Fetch.ofExcept {α : Type} : Except Failure α → Fetch α
  | .ok a => pure a
  | .error e => throw e

/-- The path lies inside the media root, if there is one. -/
def insideRoot (path : String) : Prop :=
  mediaRoot = "" ∨ ∃ relative,
    files.relative path ((files.weaklyCanonical mediaRoot).getD "") = some relative ∧
      relative ≠ "" ∧ ¬"..".toList <+: relative.toList

instance (path : String) : Decidable (insideRoot files mediaRoot path) :=
  match h : files.relative path ((files.weaklyCanonical mediaRoot).getD "") with
  | none => decidable_of_iff (mediaRoot = "") (by simp [insideRoot, h])
  | some relative =>
    decidable_of_iff (mediaRoot = "" ∨ relative ≠ "" ∧ ¬"..".toList <+: relative.toList)
      (by simp [insideRoot, h])

/-- `read_path`. The clock and the cancellation callback are asked at places of their own. -/
def readPath (source : Source) : Fetch (List UInt8) := do
  checkControl env policy 0 10
  match files.weaklyCanonical (text source.value) with
  | none =>
    throw (.invalidArgument ("media path is not a regular file: " ++ text source.value))
  | some path =>
    require (files.isRegularFile path)
      (.invalidArgument ("media path is not a regular file: " ++ text source.value))
    require (insideRoot files mediaRoot path)
      (.invalidArgument "media path is outside configured media root")
    checkControl env policy 0 11
    match files.fileSize path with
    | none =>
      throw (.invalidArgument ("failed to inspect media file: " ++ text source.value))
    | some size =>
      require (size ≤ policy.maxBytes)
        (.error .budgetExceeded "media file exceeds byte limit")
      require (files.opens path) (.invalidArgument ("failed to open media path: " ++ path))
      require (0 ≤ files.tellEnd path ∧ (files.tellEnd path).toNat ≤ policy.maxBytes)
        (.error .budgetExceeded "media file exceeds byte limit")
      -- an empty file is not read
      let bytes ←
        if (files.tellEnd path).toNat = 0 then pure []
        else
          match files.read path (files.tellEnd path).toNat with
          | none => throw (.invalidArgument ("failed to read media path: " ++ path))
          | some bytes => pure bytes.toList
      checkControl env policy 0 12
      pure bytes

/-- `(policy.max_bytes / 3 + 1) * 4` in a `std::size_t`. -/
def encodedLimit (maxBytes : Nat) : Nat := (maxBytes / 3 + 1) * 4 % 2 ^ 64

/-- The branch of `acquire_bytes` for data URIs. -/
def acquireData (source : Source) : Fetch (List UInt8) :=
  match source.value.findIdx? (· = 44) with
  | none => throw (.invalidArgument "media data source must be a base64 data URI")
  | some comma => do
    require (kDataScheme <+: source.value ∧
        (find kBase64Marker (source.value.take comma)).isSome)
      (.invalidArgument "media data source must be a base64 data URI")
    let encoded := source.value.length - comma - 1
    require (encoded ≤ encodedLimit policy.maxBytes)
      (.error .budgetExceeded "media data exceeds byte limit")
    let bytes ← Fetch.ofExcept (decodeBase64 (source.value.drop (comma + 1)))
    checkControl env policy 0 9
    require (bytes.length ≤ policy.maxBytes)
      (.error .budgetExceeded "media data exceeds byte limit")
    require (bytes ≠ []) (.invalidArgument "media source contains no data")
    pure bytes

/-- `acquire_bytes`. -/
def acquireBytes (source : Source) : Fetch (List UInt8) := do
  require (policy.maxBytes ≠ 0) (.invalidArgument "media byte limit must be positive")
  checkControl env policy 0 8
  match source.kind with
  | .bytes =>
    require (source.bytes ≠ []) (.invalidArgument "media source is empty")
    require (source.bytes.length ≤ policy.maxBytes)
      (.error .budgetExceeded "media bytes exceed byte limit")
    checkControl env policy 0 9
    pure source.bytes
  | kind =>
    require (source.value ≠ []) (.invalidArgument "media source is empty")
    match kind with
    | .url =>
      let bytes ← fetchUrl env policy (text source.value)
      require (bytes ≠ []) (.invalidArgument "media source contains no data")
      pure bytes
    | .data => acquireData env policy source
    | _ => readPath env files mediaRoot policy source

/-- `check_control` lets the call go on. -/
def Proceeds (place : Nat) : Prop :=
  env.cancelled 0 place = false ∧ ∀ deadline ∈ policy.deadline, env.now 0 place < deadline

/-- The source is a path, every check lets it pass, and the file that is opened is empty. -/
structure OpensEmpty (source : Source) : Prop where
  kind : source.kind = .path
  named : source.value ≠ []
  limit : policy.maxBytes ≠ 0
  proceeds : ∀ place ∈ [8, 10, 11, 12], Proceeds env policy place
  file : ∃ path, files.weaklyCanonical (text source.value) = some path ∧
    files.isRegularFile path ∧ insideRoot files mediaRoot path ∧
    (∃ size, files.fileSize path = some size ∧ size ≤ policy.maxBytes) ∧ files.opens path ∧
    files.tellEnd path = 0

end Functions

/-! ## Returned values -/

namespace Fetch

variable {α : Type} {x : Fetch α} {t : Trace} {Q : α → Trace → Prop}

theorem ensures_any (h : ∀ a t', Q a t') : x.Ensures t Q fun _ => True := by
  unfold Ensures
  cases x t with
  | ok a t' => exact h a t'
  | error e t' => trivial

theorem Ensures.of_ok {P : Trace → Prop} (h : x.Ensures t Q P) {a : α} {t' : Trace}
    (hx : x t = .ok a t') : Q a t' := by
  unfold Ensures at h
  rw [hx] at h
  exact h

theorem require_of {p : Prop} [Decidable p] {e : Failure} (h : p) : require p e = pure () :=
  if_pos h

end Fetch

section Control

variable {env : Env} {policy : Policy} {place : Nat} {t : Trace}

theorem checkControl_of (h : Proceeds env policy place) :
    checkControl env policy 0 place = pure () := by
  obtain ⟨hcancelled, hdeadline⟩ := h
  unfold checkControl
  rw [require_of (by simp [hcancelled]), pure_bind]
  cases hd : policy.deadline with
  | none => rfl
  | some deadline => exact require_of (hdeadline deadline hd)

theorem ensures_checkControl {Q : Unit → Trace → Prop}
    (h : Proceeds env policy place → Q () t) :
    (checkControl env policy 0 place).Ensures t Q fun _ => True := by
  unfold checkControl
  refine ensures_bind (ensures_require ?_ trivial)
  intro hcancelled
  have hfalse : env.cancelled 0 place = false := by simpa using hcancelled
  cases hd : policy.deadline with
  | none =>
    refine h ⟨hfalse, ?_⟩
    rw [hd]
    rintro _ ⟨⟩
  | some deadline =>
    refine ensures_require ?_ trivial
    intro hnow
    refine h ⟨hfalse, ?_⟩
    rw [hd]
    rintro _ ⟨⟩
    exact hnow

end Control

/-! ## The limit of a download -/

section Download

variable {env : Env} {policy : Policy} {t : Trace}

/-- What libcurl hands over stays within the limit. -/
theorem receive_length_le {limit : Nat} {body : List (List UInt8)} {bytes out : List UInt8}
    (hbytes : bytes.length ≤ limit) (h : receive limit bytes body = some out) :
    out.length ≤ limit := by
  induction body generalizing bytes with
  | nil =>
    cases h
    exact hbytes
  | cons data rest ih =>
    rw [receive, curlWrite] at h
    split_ifs at h with hlong
    apply ih _ h
    rw [List.length_append]
    omega

theorem finish_length_le {redirect : Nat} (transfer : Transfer) :
    (finish env policy redirect transfer).Ensures t
      (fun next _ => ∀ bytes, next = .inl bytes → bytes.length ≤ policy.maxBytes)
      fun _ => True := by
  unfold finish
  dsimp only
  generalize (if (receive policy.maxBytes [] transfer.body).isNone then .writeError
    else transfer.code : CurlCode) = code
  split_ifs
  · refine ensures_bind (ensures_any ?_)
    rintro - t'
    cases code <;> exact ensures_throw trivial
  · refine ensures_bind (ensures_any ?_)
    rintro - t'
    apply ensures_pure
    rintro _ ⟨⟩
    cases hreceived : receive policy.maxBytes [] transfer.body with
    | none => exact Nat.zero_le _
    | some out => exact receive_length_le (Nat.zero_le _) hreceived
  · exact ensures_throw trivial
  · exact ensures_throw trivial
  · apply ensures_pure
    rintro _ ⟨⟩

theorem loop_length_le (left redirect : Nat) (url : String) :
    (fetchUrl.loop env policy left redirect url).Ensures t
      (fun bytes _ => bytes.length ≤ policy.maxBytes) fun _ => True := by
  -- by induction on the turns that are left
  induction left generalizing redirect url t with
  | zero => exact ensures_throw trivial
  | succ left ih =>
    unfold fetchUrl.loop
    refine ensures_bind (ensures_any ?_)
    intro request t₁
    refine ensures_bind (ensures_any ?_)
    intro transfer t₂
    refine ensures_bind ((finish_length_le transfer).imp ?_ fun _ h => h)
    intro next t₃ hnext
    cases next with
    | inl bytes => exact ensures_pure (hnext bytes rfl)
    | inr url => exact ih (redirect + 1) url

theorem fetchUrl_length_le (url : String) :
    (fetchUrl env policy url).Ensures t
      (fun bytes _ => bytes.length ≤ policy.maxBytes) fun _ => True := by
  unfold fetchUrl
  refine ensures_bind (ensures_any ?_)
  intro _ t₁
  refine ensures_bind (ensures_any ?_)
  intro _ t₂
  exact loop_length_le _ 0 url

end Download

/-! ## What is returned -/

section Acquire

variable {env : Env} {files : FileSystem} {mediaRoot : String} {policy : Policy} {source : Source}
  {t : Trace}

/-- What `read_path` has seen when it returns nothing. -/
def ReadsEmpty (env : Env) (files : FileSystem) (mediaRoot : String) (policy : Policy)
    (source : Source) : Prop :=
  (∀ place ∈ [10, 11, 12], Proceeds env policy place) ∧
    ∃ path, files.weaklyCanonical (text source.value) = some path ∧
      files.isRegularFile path ∧ insideRoot files mediaRoot path ∧
      (∃ size, files.fileSize path = some size ∧ size ≤ policy.maxBytes) ∧ files.opens path ∧
      files.tellEnd path = 0

theorem readPath_ensures :
    (readPath env files mediaRoot policy source).Ensures t
      (fun bytes _ => bytes.length ≤ policy.maxBytes ∧
        (bytes = [] → ReadsEmpty env files mediaRoot policy source)) fun _ => True := by
  unfold readPath
  refine ensures_bind (ensures_checkControl ?_)
  intro hfirst
  cases hpath : files.weaklyCanonical (text source.value) with
  | none => exact ensures_throw trivial
  | some path =>
    refine ensures_bind (ensures_require ?_ trivial)
    intro hregular
    refine ensures_bind (ensures_require ?_ trivial)
    intro hinside
    refine ensures_bind (ensures_checkControl ?_)
    intro hsecond
    dsimp only
    cases hsize : files.fileSize path with
    | none => exact ensures_throw trivial
    | some size =>
      refine ensures_bind (ensures_require ?_ trivial)
      intro hle
      refine ensures_bind (ensures_require ?_ trivial)
      intro hopens
      refine ensures_bind (ensures_require ?_ trivial)
      rintro ⟨hend, hendLe⟩
      by_cases hzero : (files.tellEnd path).toNat = 0
      · rw [if_pos hzero, pure_bind]
        refine ensures_bind (ensures_checkControl ?_)
        intro hthird
        refine ensures_pure ⟨Nat.zero_le _, ?_⟩
        rintro -
        refine ⟨?_, path, hpath, hregular, hinside, ⟨size, hsize, hle⟩, hopens, by omega⟩
        simp [hfirst, hsecond, hthird]
      · rw [if_neg hzero]
        cases hread : files.read path (files.tellEnd path).toNat with
        | none => exact ensures_bind (ensures_throw trivial)
        | some bytes =>
          dsimp only
          rw [pure_bind]
          refine ensures_bind (ensures_checkControl ?_)
          rintro -
          refine ensures_pure ⟨?_, ?_⟩
          · rw [bytes.toList_length]
            exact hendLe
          · intro hnil
            have hlength := bytes.toList_length
            rw [hnil] at hlength
            exact absurd hlength.symm hzero

theorem acquireData_ensures :
    (acquireData env policy source).Ensures t
      (fun bytes _ => bytes.length ≤ policy.maxBytes ∧ bytes ≠ []) fun _ => True := by
  unfold acquireData
  cases source.value.findIdx? (· = 44) with
  | none => exact ensures_throw trivial
  | some comma =>
    refine ensures_bind (ensures_any ?_)
    intro _ t₁
    refine ensures_bind (ensures_any ?_)
    intro _ t₂
    refine ensures_bind (ensures_any ?_)
    intro bytes t₃
    refine ensures_bind (ensures_any ?_)
    intro _ t₄
    refine ensures_bind (ensures_require ?_ trivial)
    intro hle
    refine ensures_bind (ensures_require ?_ trivial)
    intro hne
    exact ensures_pure ⟨hle, hne⟩

/-- What is returned is within the limit, and it is empty only for an empty file. -/
theorem acquireBytes_ensures :
    (acquireBytes env files mediaRoot policy source).Ensures t
      (fun bytes _ => bytes.length ≤ policy.maxBytes ∧
        (bytes = [] → OpensEmpty env files mediaRoot policy source)) fun _ => True := by
  unfold acquireBytes
  refine ensures_bind (ensures_require ?_ trivial)
  intro hlimit
  refine ensures_bind (ensures_checkControl ?_)
  intro hfirst
  cases hkind : source.kind with
  | bytes =>
    dsimp only
    refine ensures_bind (ensures_require ?_ trivial)
    intro hne
    refine ensures_bind (ensures_require ?_ trivial)
    intro hle
    refine ensures_bind (ensures_any ?_)
    intro _ t₁
    exact ensures_pure ⟨hle, fun hnil => absurd hnil hne⟩
  | url =>
    dsimp only
    refine ensures_bind (ensures_any ?_)
    intro _ t₁
    refine ensures_bind ((fetchUrl_length_le _).imp ?_ fun _ h => h)
    intro bytes t₂ hle
    refine ensures_bind (ensures_require ?_ trivial)
    intro hne
    exact ensures_pure ⟨hle, fun hnil => absurd hnil hne⟩
  | data =>
    dsimp only
    refine ensures_bind (ensures_any ?_)
    intro _ t₁
    refine acquireData_ensures.imp ?_ fun _ h => h
    intro bytes t₂ h
    exact ⟨h.1, fun hnil => absurd hnil h.2⟩
  | path =>
    dsimp only
    refine ensures_bind (ensures_require ?_ trivial)
    intro hnamed
    refine readPath_ensures.imp ?_ fun _ h => h
    intro bytes t₂ h
    refine ⟨h.1, ?_⟩
    intro hnil
    obtain ⟨hproceeds, hfile⟩ := h.2 hnil
    exact
      { kind := hkind
        named := hnamed
        limit := hlimit
        proceeds := List.forall_mem_cons.mpr ⟨hfirst, hproceeds⟩
        file := hfile }

/-- An empty file is returned as it is. -/
theorem acquireBytes_of_opensEmpty (h : OpensEmpty env files mediaRoot policy source) :
    acquireBytes env files mediaRoot policy source = pure [] := by
  obtain ⟨path, hpath, hregular, hinside, ⟨size, hsize, hle⟩, hopens, hend⟩ := h.file
  have hproceeds (place : Nat) (hplace : place ∈ [8, 10, 11, 12]) :
      checkControl env policy 0 place = pure () := checkControl_of (h.proceeds place hplace)
  have hread : readPath env files mediaRoot policy source = pure [] := by
    unfold readPath
    rw [hproceeds 10 (by simp), pure_bind, hpath]
    dsimp only
    rw [require_of hregular, pure_bind, require_of hinside, pure_bind, hproceeds 11 (by simp),
      pure_bind, hsize]
    dsimp only
    rw [require_of hle, pure_bind, require_of hopens, pure_bind, require_of (by omega), pure_bind,
      if_pos (by omega), pure_bind, hproceeds 12 (by simp), pure_bind]
  unfold acquireBytes
  rw [require_of h.limit, pure_bind, hproceeds 8 (by simp), pure_bind, h.kind]
  dsimp only
  rw [require_of h.named, pure_bind, hread]

/-- The data URI of bytes, of a media type without a comma. -/
def dataUri (mediaType : List UInt8) (pad : Bool) (bytes : List UInt8) : List UInt8 :=
  kDataScheme ++ mediaType ++ kBase64Marker ++ 44 :: encodeBase64 pad bytes

/-- The standard text of bytes within the limit is not refused for its length. -/
theorem length_le_encodedLimit {maxBytes : Nat} (hmax : maxBytes < 2 ^ 62) {pad : Bool}
    {bytes : List UInt8} (hle : bytes.length ≤ maxBytes) :
    (encodeBase64 pad bytes).length ≤ encodedLimit maxBytes := by
  have hlength := length_encodeBase64_le pad bytes
  have hlimit : encodedLimit maxBytes = (maxBytes / 3 + 1) * 4 := Nat.mod_eq_of_lt (by omega)
  rw [hlimit]
  omega

/-- A base64 data URI of bytes within the limit gives the bytes, if the call is not stopped. -/
theorem acquireBytes_data {mediaType bytes : List UInt8} {pad : Bool}
    (hmax : policy.maxBytes < 2 ^ 62) (htype : 44 ∉ mediaType) (hne : bytes ≠ [])
    (hle : bytes.length ≤ policy.maxBytes) :
    acquireBytes env files mediaRoot policy ⟨.data, dataUri mediaType pad bytes, []⟩ =
      checkControl env policy 0 8 >>= fun _ => checkControl env policy 0 9 >>= fun _ =>
        pure bytes := by
  have hpos : policy.maxBytes ≠ 0 := by
    have := List.length_pos_iff.mpr hne
    omega
  -- the first comma is the one before the text
  have hhead : (kDataScheme ++ mediaType ++ kBase64Marker).findIdx? (· = 44) = none := by
    rw [List.findIdx?_eq_none_iff]
    intro c hc
    apply decide_eq_false
    rintro rfl
    rcases List.mem_append.mp hc with hc | hc
    · rcases List.mem_append.mp hc with hc | hc
      · exact absurd hc (by decide)
      · exact htype hc
    · exact absurd hc (by decide)
  have hcomma : (dataUri mediaType pad bytes).findIdx? (· = 44) =
      some (kDataScheme ++ mediaType ++ kBase64Marker).length := by
    rw [dataUri, List.findIdx?_append, hhead]
    simp [List.findIdx?_cons]
  have hscheme : kDataScheme <+: dataUri mediaType pad bytes := by
    unfold dataUri
    rw [List.append_assoc, List.append_assoc]
    exact List.prefix_append _ _
  have hmarker : (find kBase64Marker ((dataUri mediaType pad bytes).take
      (kDataScheme ++ mediaType ++ kBase64Marker).length)).isSome := by
    unfold dataUri
    rw [List.take_left, Option.isSome_iff_ne_none, ne_eq,
      find_eq_none_iff (by decide), not_not]
    exact (List.suffix_append _ _).isInfix
  have hdrop : (dataUri mediaType pad bytes).drop
      ((kDataScheme ++ mediaType ++ kBase64Marker).length + 1) = encodeBase64 pad bytes := by
    unfold dataUri
    rw [List.drop_append]
    simp
  have hlength : (dataUri mediaType pad bytes).length -
      (kDataScheme ++ mediaType ++ kBase64Marker).length - 1 = (encodeBase64 pad bytes).length := by
    unfold dataUri
    rw [List.length_append, List.length_cons]
    omega
  have hvalue : dataUri mediaType pad bytes ≠ [] := by simp [dataUri]
  have hdata : acquireData env policy ⟨.data, dataUri mediaType pad bytes, []⟩ =
      checkControl env policy 0 9 >>= fun _ => pure bytes := by
    unfold acquireData
    dsimp only
    rw [hcomma]
    dsimp only
    rw [require_of ⟨hscheme, hmarker⟩, pure_bind, hlength,
      require_of (length_le_encodedLimit hmax hle), pure_bind, hdrop, decodeBase64_encodeBase64]
    dsimp only [Fetch.ofExcept]
    rw [pure_bind, require_of hle, pure_bind, require_of hne, pure_bind]
  unfold acquireBytes
  rw [require_of hpos, pure_bind]
  dsimp only
  rw [require_of hvalue, pure_bind, hdata]

end Acquire

/-- **Base64 data URIs decode exactly and within the limit**, and what is returned is never empty
and never more than the limit, unless the source is a path and the file that is opened is empty:
it is the one source whose bytes are not looked at before they are returned. -/
theorem acquireBytes_sound_iff (env : Env) (files : FileSystem) (mediaRoot : String)
    (policy : Policy) :
    (∀ mediaType pad bytes, policy.maxBytes < 2 ^ 62 → 44 ∉ mediaType → 1 ≤ bytes.length →
      bytes.length ≤ policy.maxBytes →
      acquireBytes env files mediaRoot policy ⟨.data, dataUri mediaType pad bytes, []⟩ =
        checkControl env policy 0 8 >>= fun _ => checkControl env policy 0 9 >>= fun _ =>
          pure bytes) ∧
    (∀ text, (decodeBase64 text).isOk ↔ WellFormed text ∧ (sextets text).length % 4 ≠ 1) ∧
    (∀ text out, decodeBase64 text = .ok out → out.length = 6 * (sextets text).length / 8 ∧
      byteBits out = (wordBits 6 (sextets text)).take (out.length * 8)) ∧
    ∀ source t, (∀ bytes t', acquireBytes env files mediaRoot policy source t = .ok bytes t' →
      bytes ≠ [] ∧ bytes.length ≤ policy.maxBytes) ↔
        ¬OpensEmpty env files mediaRoot policy source := by
  refine ⟨?_, ?_, ?_, ?_⟩
  · intro mediaType pad bytes hmax htype hpos hle
    exact acquireBytes_data hmax htype (List.length_pos_iff.mp hpos) hle
  · intro text
    constructor
    · intro hok
      cases hdecode : decodeBase64 text with
      | error e =>
        rw [hdecode] at hok
        cases hok
      | ok out => exact (decodeBase64_eq_ok_iff.mp hdecode).1
    · intro hwell
      obtain ⟨out, hout⟩ := exists_decodeBase64 hwell
      rw [hout]
      rfl
  · intro text out hdecode
    exact (decodeBase64_eq_ok_iff.mp hdecode).2
  · intro source t
    constructor
    -- An empty file is read as it is: no check asks for a byte.
    · intro h hempty
      have hnil := acquireBytes_of_opensEmpty hempty
      exact (h [] t (by rw [hnil]; rfl)).1 rfl
    · intro hopens bytes t' hok
      have hensures := acquireBytes_ensures.of_ok hok
      exact ⟨fun hnil => hopens (hensures.2 hnil), hensures.1⟩

/-- A file system where every path is a regular file without bytes. -/
def emptyFiles : FileSystem where
  weaklyCanonical path := some path
  isRegularFile _ := true
  relative path _ := some path
  fileSize _ := some 0
  opens _ := true
  tellEnd _ := 0
  read _ _ := none

/-- A file system where every path is a regular file of one byte. -/
def byteFiles : FileSystem :=
  { emptyFiles with
    fileSize := fun _ => some 1
    tellEnd := fun _ => 1
    read := fun _ n => some (List.Vector.replicate n 7) }

/-- Two bytes come back from their URI, and a file of one byte does not open empty. -/
theorem acquireBytes_sound_iff_bytes :
    acquireBytes (.answering (.other 0)) byteFiles "" {}
        ⟨.data, dataUri [0x61] true [0x68, 0x69], []⟩ {} = .ok [0x68, 0x69] {} ∧
      ¬OpensEmpty (.answering (.other 0)) byteFiles "" {} ⟨.path, [0x61], []⟩ := by
  obtain ⟨hdata, -, -, hsound⟩ := acquireBytes_sound_iff (.answering (.other 0)) byteFiles "" {}
  constructor
  · rw [hdata [0x61] true [0x68, 0x69] (by decide) (by decide) (by decide) (by decide)]
    rfl
  · have hread : acquireBytes (.answering (.other 0)) byteFiles "" {} ⟨.path, [0x61], []⟩ {} =
        .ok [7] {} := rfl
    refine (hsound ⟨.path, [0x61], []⟩ {}).mp fun bytes t' hbytes => ?_
    cases hread.symm.trans hbytes
    decide

/-- An empty file gives no bytes and no error. -/
theorem acquireBytes_emptyFile :
    ¬∀ source t bytes t',
      acquireBytes (.answering (.other 0)) emptyFiles "" {} source t = .ok bytes t' →
        bytes ≠ [] ∧ bytes.length ≤ 256 * 2 ^ 20 := by
  intro h
  have hopens : OpensEmpty (.answering (.other 0)) emptyFiles "" {} ⟨.path, [0x61], []⟩ :=
    { kind := rfl
      named := List.cons_ne_nil _ _
      limit := by decide
      proceeds := by
        intro place _
        refine ⟨rfl, ?_⟩
        rintro _ ⟨⟩
      file := ⟨text [0x61], rfl, rfl, Or.inl rfl, ⟨0, rfl, Nat.zero_le _⟩, rfl, rfl⟩ }
  have hnil := acquireBytes_of_opensEmpty hopens
  exact (h ⟨.path, [0x61], []⟩ {} [] {} (by rw [hnil]; rfl)).1 rfl

end Ninfer.Acquire
