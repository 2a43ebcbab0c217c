import IrohWillow.Session.Reconciler

/-!
# Data messages

`DataSender` and `DataReceiver` of `session/data.rs`: a peer sends entries
outside of reconciliation, each followed by its payload. They share the store
and the static tokens with the reconciler.
-/

namespace IrohWillow

/-- `DataSendEntry`. -/
structure DataSendEntry where
  entry : Entry
  staticTokenHandle : Nat
  dynamicToken : DynamicToken
  offset : U64
  deriving DecidableEq

/-- `DataMessage`. -/
inductive DataMessage where
  | sendEntry (message : DataSendEntry)
  | sendPayload (bytes : Chunk)
  | setMetadata
  deriving DecidableEq

/-- `DataSender::send_entry`: the messages on the data channel. -/
def DataSender.sendEntry {σ : Type} [Meadowcap] [Storage σ] (sh : Reconciler.Shared σ)
    (a : AuthorisedEntry) : Except Failure Unit × Reconciler.Shared σ × List DataMessage :=
  let (handle, sh) := sh.bindAndSendOurs a.token.capability
  let message : DataMessage := .sendEntry
    { entry := a.entry
      staticTokenHandle := handle
      dynamicToken := a.token.signature
      offset := 0 }
  match Storage.payloadChunks sh.store a.entry.payloadDigest with
  | .error e => (.error (.error e), sh, [message])
  | .ok none => (.ok (), sh, [message])
  | .ok (some chunks) => (.ok (), sh, message :: chunks.map .sendPayload)

/-- `DataReceiver`, without what it shares with the reconciler. -/
structure DataReceiver where
  currentPayload : CurrentPayload := {}
  deriving DecidableEq

namespace DataReceiver

open Reconciler

variable {σ : Type} [Meadowcap] [Storage σ]

/-- `DataReceiver::on_send_entry`; `none` while it waits for the static
token. -/
def onSendEntry (d : DataReceiver) (sh : Shared σ) (message : DataSendEntry) :
    Option (Except Failure DataReceiver × Shared σ) :=
  match d.currentPayload.ensureNone with
  | .error e => some (.error e, sh)
  | .ok () =>
      match sh.staticTokens.authoriseEntryEventually message.entry message.staticTokenHandle
          message.dynamicToken with
      | .pending => none
      | .ready none => some (.error (.error .unauthorisedWrite), sh)
      | .ready (some a) =>
          let origin : EntryOrigin := .remote sh.sessionId
          match Storage.ingestEntry sh.store a origin with
          | (.error e, store) => some (.error (.error e), { sh with store := store })
          | (.ok _, store) =>
              let sh := { sh with store := store, ingested := sh.ingested ++ [(a, origin)] }
              match d.currentPayload.set a.entry.payloadDigest a.entry.payloadLength none
                  (some message.offset) with
              | .error e => some (.error e, sh)
              | .ok payload => some (.ok ⟨payload⟩, sh)

/-- `DataReceiver::on_send_payload`. -/
def onSendPayload (d : DataReceiver) (sh : Shared σ) (bytes : Chunk) :
    Except Failure DataReceiver × Shared σ :=
  match d.currentPayload.recvChunk bytes with
  | .error e => (.error e, sh)
  | .ok payload =>
      if payload.isComplete then
        match payload.finalize sh.store with
        | (.error e, store) => (.error e, { sh with store := store })
        | (.ok payload, store) => (.ok ⟨payload⟩, { sh with store := store })
      else (.ok ⟨payload⟩, sh)

/-- `DataReceiver::on_message`. -/
def onMessage (d : DataReceiver) (sh : Shared σ) :
    DataMessage → Option (Except Failure DataReceiver × Shared σ)
  | .sendEntry message => d.onSendEntry sh message
  | .sendPayload bytes => some (d.onSendPayload sh bytes)
  | .setMetadata => some (.ok d, sh)

/-! ## What a data message changes -/

/-- A data message changes the store, and ingests at most the entry it
carries. -/
theorem onMessage_cases {d : DataReceiver} {sh sh' : Shared σ} {message : DataMessage}
    {res : Except Failure DataReceiver} (h : d.onMessage sh message = some (res, sh')) :
    ∃ store new, sh' = { sh with store := store, ingested := sh.ingested ++ new } ∧
      (new = [] ∨ ∃ m a, message = .sendEntry m ∧
        sh.staticTokens.authoriseEntryEventually m.entry m.staticTokenHandle m.dynamicToken =
          .ready (some a) ∧ new = [(a, .remote sh.sessionId)]) := by
  have hsame : ∀ store : σ, { sh with store := store } =
      { sh with store := store, ingested := sh.ingested ++ [] } := by simp
  cases message with
  | sendEntry m =>
      replace h : d.onSendEntry sh m = some (res, sh') := h
      unfold onSendEntry at h
      split at h
      · obtain rfl := (Prod.mk.inj (Option.some.inj h)).2
        exact ⟨_, [], hsame sh.store, Or.inl rfl⟩
      · split at h
        · cases h
        · obtain rfl := (Prod.mk.inj (Option.some.inj h)).2
          exact ⟨_, [], hsame sh.store, Or.inl rfl⟩
        · rename_i a ha
          dsimp only at h
          split at h
          · rename_i store _
            obtain rfl := (Prod.mk.inj (Option.some.inj h)).2
            exact ⟨_, [], hsame store, Or.inl rfl⟩
          · rename_i store _
            refine ⟨store, [(a, .remote sh.sessionId)], ?_, Or.inr ⟨m, a, rfl, ha, rfl⟩⟩
            split at h <;> exact (Prod.mk.inj (Option.some.inj h)).2.symm
  | sendPayload bytes =>
      replace h : some (d.onSendPayload sh bytes) = some (res, sh') := h
      unfold onSendPayload at h
      repeat' split at h
      all_goals
        obtain rfl := (Prod.mk.inj (Option.some.inj h)).2
        exact ⟨_, [], hsame _, Or.inl rfl⟩
  | setMetadata =>
      obtain rfl := (Prod.mk.inj (Option.some.inj h)).2
      exact ⟨_, [], hsame sh.store, Or.inl rfl⟩

end DataReceiver

end IrohWillow
