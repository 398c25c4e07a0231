import Ninfer.Artifact.Layouts
import Ninfer.Commons.Chunks
import Ninfer.Commons.Splice
import Ninfer.Commons.Tensor

/-!
# Tensors as words and as bytes

The part of `tools/artifact/layouts.py` that every word-level encoder uses: payloads, and the
little-endian bytes of tensors of words of a fixed width. A tensor is its dimensions and its
elements in row-major order; of its element type only the words count, so a `TypeError` about the
element type is a matter of typing here, and so is the device a tensor is on.

## Main definitions

* `CodecException`: what the encoders raise
* `Payload`: bytes or a tensor of bytes
* `encodeDirect`, `decodeDirect`: words in row-major order, the least significant byte first

## Main results

* `decodeDirect_eq_ok`: when bytes are words and which words they are
* `encodeDirect_eq_ok`: the bytes of words
-/

namespace Ninfer.Artifact.Tools

/-- The exceptions of the encoders: those of the formats and geometries with a `ValueError`, and
what they and `torch` raise themselves. -/
inductive CodecException
  | raised (cause : PyException)
  | typeError (what : String)
  | indexError (what : String)
  | runtimeError
  deriving DecidableEq, Repr

/-- A `ValueError`. -/
def CodecException.valueError (what : String) : CodecException := .raised (.valueError what)

/-- A computation on formats and shapes within an encoder. -/
def lifted {α : Type} (x : Except PyException α) : Except CodecException α := x.mapError .raised

/-- `Payload` and `Plane`: a byte buffer, or a contiguous tensor of bytes. -/
inductive Payload
  | bytes (data : List UInt8)
  | tensor (data : Tensor UInt8)

/-- The bytes of a payload. -/
def Payload.data : Payload → List UInt8
  | bytes data => data
  | tensor data => data.data

/-- `_payload_length`, which `_payload_tensor` repeats. -/
def payloadLength : Payload → Except CodecException Nat
  | .bytes data => .ok data.length
  | .tensor data => do
    ensure (data.shape.length = 1)
      (.typeError "tensor payloads must be contiguous one-dimensional uint8 tensors")
    return data.data.length

/-- `reshape`, which `torch` refuses when the number of elements differs. -/
def reshapeTo {α : Type} (shape : List Nat) (tensor : Tensor α) :
    Except CodecException (Tensor α) :=
  match tensor.reshape shape with
  | some reshaped => .ok reshaped
  | none => .error .runtimeError

/-- `encode_direct`, of words of `wordBytes` bytes. -/
def encodeDirect (wordBytes : Nat) (tensor : Tensor (BitVec (8 * wordBytes))) :
    Except CodecException (List UInt8) := do
  ensure (tensor.shape.length ≤ 16 ∧ ∀ dim ∈ tensor.shape, 0 < dim)
    (.valueError "contiguous-le-v1 requires rank 0..16 with positive dimensions")
  return tensor.data.flatMap fun word => leBytes wordBytes word.toNat

/-- `decode_direct`, of words of `wordBytes` bytes. -/
def decodeDirect (wordBytes : Nat) (payload : Payload) (shape : List Int) :
    Except CodecException (Tensor (BitVec (8 * wordBytes))) := do
  let dims ← lifted (checkedShape shape none)
  ensure (dims.length ≤ 16) (.valueError "contiguous-le-v1 supports rank 0 through 16")
  let expected := dims.prod * wordBytes
  let length ← payloadLength payload
  ensure (length = expected)
    (.valueError ("direct payload has " ++ toString length ++ " bytes, expected " ++
      toString expected))
  reshapeTo dims (Tensor.ofList (leWords wordBytes payload.data))

section Words

variable {α : Type} {wordBytes : Nat} {words : Tensor (BitVec (8 * wordBytes))}
  {tensor u : Tensor α} {shape : List Nat} {payload : Payload} {raw : List UInt8}

theorem lifted_eq_ok {x : Except PyException α} {a : α} : lifted x = .ok a ↔ x = .ok a := by
  cases x with
  | error e =>
    constructor
    · rintro ⟨⟩
    · rintro ⟨⟩
  | ok b =>
    rw [Except.ok.injEq]
    constructor
    · rintro ⟨⟩
      rfl
    · rintro rfl
      rfl

/-- The dimensions of a shape that passes its checks. -/
theorem shape_checked_iff {value : List Int} {rank : Option Nat} {dims : List Nat} :
    checkedShape value rank = .ok dims ↔
      (∀ dim ∈ value, 0 < dim) ∧ (∀ r ∈ rank, value.length = r) ∧ dims = value.map Int.toNat := by
  unfold checkedShape
  rw [ensure_bind_eq_ok, ensure_bind_eq_ok]
  constructor
  · rintro ⟨hdims, hrank, h⟩
    cases h
    exact ⟨hdims, hrank, rfl⟩
  · rintro ⟨hdims, hrank, rfl⟩
    exact ⟨hdims, hrank, rfl⟩

theorem reshapeTo_eq_ok :
    reshapeTo shape tensor = .ok u ↔ u.shape = shape ∧ u.data = tensor.data := by
  rw [← Tensor.reshape_eq_some]
  unfold reshapeTo
  cases tensor.reshape shape with
  | none =>
    constructor
    · rintro ⟨⟩
    · rintro ⟨⟩
  | some v => rw [Except.ok.injEq, Option.some.injEq]

theorem payloadLength_eq_ok {n : Nat} (h : payloadLength payload = .ok n) :
    n = payload.data.length := by
  cases payload with
  | bytes data =>
    cases h
    rfl
  | tensor data =>
    simp only [payloadLength, ensure_bind_eq_ok] at h
    cases h.2
    rfl

@[simp] theorem payloadLength_ofList (raw : List UInt8) :
    payloadLength (.tensor (Tensor.ofList raw)) = .ok raw.length := rfl

theorem encodeDirect_eq_ok : encodeDirect wordBytes words = .ok raw ↔
    (words.shape.length ≤ 16 ∧ ∀ dim ∈ words.shape, 0 < dim) ∧
      raw = words.data.flatMap fun word => leBytes wordBytes word.toNat := by
  unfold encodeDirect
  rw [ensure_bind_eq_ok]
  constructor
  · rintro ⟨hshape, h⟩
    cases h
    exact ⟨hshape, rfl⟩
  · rintro ⟨hshape, rfl⟩
    exact ⟨hshape, rfl⟩

/-- The bytes of words, as many as the words need. -/
theorem length_wordBytes (words : List (BitVec (8 * wordBytes))) :
    (words.flatMap fun word => leBytes wordBytes word.toNat).length =
      words.length * wordBytes := by
  rw [List.flatMap_def, length_flatten_of (w := wordBytes), List.length_map]
  intro row hrow
  obtain ⟨word, -, rfl⟩ := List.mem_map.mp hrow
  exact length_leBytes _ _

theorem decodeDirect_eq_ok {dimensions : List Int} :
    decodeDirect wordBytes payload dimensions = .ok words ↔
    ∃ dims, checkedShape dimensions none = .ok dims ∧ dims.length ≤ 16 ∧
      payloadLength payload = .ok (dims.prod * wordBytes) ∧ words.shape = dims ∧
      words.data = leWords wordBytes payload.data := by
  unfold decodeDirect
  rw [bind_eq_ok]
  constructor
  · rintro ⟨dims, hdims, h⟩
    rw [ensure_bind_eq_ok, bind_eq_ok] at h
    obtain ⟨hrank, length, hlength, h⟩ := h
    rw [ensure_bind_eq_ok] at h
    obtain ⟨rfl, h⟩ := h
    obtain ⟨hshape, hdata⟩ := reshapeTo_eq_ok.mp h
    exact ⟨dims, lifted_eq_ok.mp hdims, hrank, hlength, hshape, hdata⟩
  · rintro ⟨dims, hdims, hrank, hlength, hshape, hdata⟩
    refine ⟨dims, lifted_eq_ok.mpr hdims, ?_⟩
    rw [ensure_bind_eq_ok, bind_eq_ok]
    refine ⟨hrank, _, hlength, ?_⟩
    rw [ensure_bind_eq_ok]
    exact ⟨rfl, reshapeTo_eq_ok.mpr ⟨hshape, hdata⟩⟩

end Words

end Ninfer.Artifact.Tools
