import IrohWillow.Session.Storage

/-!
# Receiving payloads

`CurrentPayload` of `session/payload.rs`: the payload that is being received.
The writer task exists from the first chunk on and imports what was handed to
it when the payload is finalized.
-/

namespace IrohWillow

/-- `CurrentPayloadInner`; `writer` holds the chunks handed to the writer
task. -/
structure CurrentPayloadInner where
  payloadDigest : PayloadDigest
  expectedLength : Nat
  receivedLength : Nat
  totalLength : U64
  offset : U64
  writer : Option (List Chunk)
  deriving DecidableEq

/-- `CurrentPayload`. -/
structure CurrentPayload where
  inner : Option CurrentPayloadInner := none
  deriving DecidableEq

namespace CurrentPayload

/-- `CurrentPayload::set`. -/
def set (p : CurrentPayload) (payloadDigest : PayloadDigest) (totalLength : U64)
    (availableLength offset : Option U64) : Except Failure CurrentPayload :=
  match p.inner with
  | some _ => .error (.error .invalidMessageInCurrentState)
  | none =>
      let offset := offset.getD 0
      let availableLength := availableLength.getD totalLength
      if availableLength < offset then .error .panic
      else
        .ok ⟨some
          { payloadDigest := payloadDigest
            expectedLength := availableLength.val - offset.val
            receivedLength := 0
            totalLength := totalLength
            offset := offset
            writer := none }⟩

/-- `CurrentPayload::recv_chunk`. -/
def recvChunk (p : CurrentPayload) (chunk : Chunk) : Except Failure CurrentPayload :=
  match p.inner with
  | none => .error (.error .invalidMessageInCurrentState)
  | some state =>
      .ok ⟨some { state with
        writer := some (state.writer.getD [] ++ [chunk])
        receivedLength := state.receivedLength + chunk.length }⟩

/-- `CurrentPayload::is_complete`. -/
def isComplete (p : CurrentPayload) : Bool :=
  match p.inner with
  | none => false
  | some state => decide (state.expectedLength ≤ state.receivedLength)

/-- `CurrentPayload::is_active`. -/
def isActive (p : CurrentPayload) : Bool :=
  match p.inner with
  | none => false
  | some state => state.writer.isSome

/-- `CurrentPayload::ensure_none`. -/
def ensureNone (p : CurrentPayload) : Except Failure Unit :=
  if p.isActive then .error (.error .invalidMessageInCurrentState) else .ok ()

/-- `CurrentPayload::finalize`, on the store that the writer task imports
into. -/
def finalize {σ : Type} [Meadowcap] [Storage σ] (p : CurrentPayload) (store : σ) :
    Except Failure CurrentPayload × σ :=
  match p.inner with
  | none => (.error (.error .invalidMessageInCurrentState), store)
  | some state =>
      match state.writer with
      | none => (.ok {}, store)
      | some chunks =>
          match Storage.importChunks store state.payloadDigest state.totalLength chunks with
          | (.error e, store) => (.error (.error e), store)
          | (.ok (), store) => (.ok {}, store)

end CurrentPayload

end IrohWillow
