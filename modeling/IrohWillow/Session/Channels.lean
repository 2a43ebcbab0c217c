import IrohWillow.Session.Data
import IrohWillow.Session.PaiSession

/-!
# The channels of a session

`Channel` and `LogicalChannel` of `proto/wgps/channels.rs`, all kinds of messages
(`proto/wgps/messages.rs`), and the senders and receivers of `session/channels.rs`.
A message has a channel of its own, and the typed receiver of a logical channel
takes the messages of its channel only.
-/

namespace IrohWillow

/-- `LogicalChannel`. -/
inductive LogicalChannel where
  | intersection
  | capability
  | areaOfInterest
  | staticToken
  | reconciliation
  | data
  deriving DecidableEq, Repr

/-- `Channel`. -/
inductive Channel where
  | control
  | logical (channel : LogicalChannel)
  deriving DecidableEq, Repr

/-- `InvalidChannelId`. -/
inductive InvalidChannelId where
  | invalidChannelId
  deriving DecidableEq, Repr

namespace LogicalChannel

/-- `LogicalChannel::VARIANTS`. -/
def variants : List LogicalChannel :=
  [.intersection, .capability, .areaOfInterest, .staticToken, .reconciliation, .data]

/-- `LogicalChannel::id`. -/
def id : LogicalChannel → Byte
  | .intersection => 2
  | .areaOfInterest => 3
  | .capability => 4
  | .staticToken => 5
  | .reconciliation => 6
  | .data => 7

/-- `LogicalChannel::from_id`. -/
def fromId (id : Byte) : Except InvalidChannelId LogicalChannel :=
  match id.val with
  | 2 => .ok .intersection
  | 3 => .ok .areaOfInterest
  | 4 => .ok .capability
  | 5 => .ok .staticToken
  | 6 => .ok .reconciliation
  | 7 => .ok .data
  | _ => .error .invalidChannelId

end LogicalChannel

namespace Channel

/-- `Channel::all`. -/
def all : List Channel := .control :: LogicalChannel.variants.map .logical

/-- `Channel::id`. -/
def id : Channel → Byte
  | .control => 0
  | .logical ch => ch.id

/-- `Channel::from_id`. -/
def fromId (id : Byte) : Except InvalidChannelId Channel :=
  if id = 0 then .ok .control
  else
    match LogicalChannel.fromId id with
    | .ok ch => .ok (.logical ch)
    | .error e => .error e

theorem mem_all (ch : Channel) : ch ∈ all := by
  cases ch with
  | control => exact List.mem_cons_self
  | logical ch => cases ch <;> decide

theorem nodup_all : all.Nodup := by decide

theorem fromId_id (ch : Channel) : fromId ch.id = .ok ch := by
  cases ch with
  | control => rfl
  | logical ch => cases ch <;> rfl

theorem fromId_eq_ok {id : Byte} {ch : Channel} (h : fromId id = .ok ch) : ch.id = id := by
  unfold fromId LogicalChannel.fromId at h
  split at h
  · rename_i hid
    cases h
    exact hid.symm
  · split at h <;> try cases h
    rename_i hok
    split at hok <;> cases hok <;> exact Fin.ext (Eq.symm ‹_›)

theorem id_injective : Function.Injective id := by
  intro ch ch' h
  have hch := fromId_id ch
  rw [h, fromId_id] at hch
  exact (Except.ok.inj hch).symm

end Channel

/-! ## Messages -/

/-- `HandleType`. -/
inductive HandleType where
  | intersection
  | capability
  | areaOfInterest
  | payloadRequest
  | staticToken
  deriving DecidableEq, Repr

/-- `SetupBindAreaOfInterest`. -/
structure SetupBindAreaOfInterest where
  areaOfInterest : AreaOfInterest
  authorisation : Nat
  deriving DecidableEq

/-- `DataSetMetadata`. -/
structure DataSetMetadata where
  senderHandle : AreaOfInterestHandle
  receiverHandle : AreaOfInterestHandle
  isEager : Bool
  deriving DecidableEq

/-- `Message`, with the type of a group member in bytes. -/
inductive MessageOf (GroupBytes : Type) where
  | commitmentReveal (nonce : AccessChallenge)
  | paiReplyFragment (handle : Nat) (groupMember : GroupBytes)
  | paiBindFragment (groupMember : GroupBytes) (isSecondary : Bool)
  | paiRequestSubspaceCapability (handle : Nat)
  | paiReplySubspaceCapability (message : PaiReplySubspaceCapability)
  | setupBindStaticToken (staticToken : McCapability)
  | setupBindReadCapability (message : SetupBindReadCapability)
  | setupBindAreaOfInterest (message : SetupBindAreaOfInterest)
  | reconciliationSendFingerprint (message : ReconciliationSendFingerprint)
  | reconciliationAnnounceEntries (message : ReconciliationAnnounceEntries)
  | reconciliationSendEntry (message : ReconciliationSendEntry)
  | reconciliationSendPayload (bytes : Chunk)
  | reconciliationTerminatePayload (isFinal : Bool)
  | dataSendEntry (message : DataSendEntry)
  | dataSendPayload (bytes : Chunk)
  | dataSetMetadata (message : DataSetMetadata)
  | controlIssueGuarantee (amount : U64) (channel : LogicalChannel)
  | controlAbsolve (amount : U64) (channel : LogicalChannel)
  | controlPlead (target : U64) (channel : LogicalChannel)
  | controlAnnounceDropping (channel : LogicalChannel)
  | controlApologise (channel : LogicalChannel)
  | controlFreeHandle (handle : U64) (mine : Bool) (handleType : HandleType)

/-- `Message`. -/
abbrev Message [PaiScheme] := MessageOf GroupBytes

namespace Message

variable [PaiScheme]

/-- `Message::channel`. -/
def channel : Message → Channel
  | .paiBindFragment _ _ | .paiReplyFragment _ _ => .logical .intersection
  | .setupBindReadCapability _ => .logical .capability
  | .setupBindAreaOfInterest _ => .logical .areaOfInterest
  | .setupBindStaticToken _ => .logical .staticToken
  | .reconciliationSendFingerprint _ | .reconciliationAnnounceEntries _
  | .reconciliationSendEntry _ | .reconciliationSendPayload _
  | .reconciliationTerminatePayload _ => .logical .reconciliation
  | .dataSendEntry _ | .dataSendPayload _ | .dataSetMetadata _ => .logical .data
  | .commitmentReveal _ | .paiRequestSubspaceCapability _ | .paiReplySubspaceCapability _
  | .controlIssueGuarantee _ _ | .controlAbsolve _ _ | .controlPlead _ _
  | .controlAnnounceDropping _ | .controlApologise _ | .controlFreeHandle _ _ _ => .control

/-- `TryFrom<Message>` for `IntersectionMessage`. -/
def toIntersectionMessage : Message → Option IntersectionMessage
  | .paiBindFragment groupMember isSecondary => some (.bindFragment groupMember isSecondary)
  | .paiReplyFragment handle groupMember => some (.replyFragment handle groupMember)
  | _ => none

/-- `TryFrom<Message>` for `ReconciliationMessage`. -/
def toReconciliationMessage : Message → Option ReconciliationMessage
  | .reconciliationSendFingerprint message => some (.sendFingerprint message)
  | .reconciliationAnnounceEntries message => some (.announceEntries message)
  | .reconciliationSendEntry message => some (.sendEntry message)
  | .reconciliationSendPayload bytes => some (.sendPayload bytes)
  | .reconciliationTerminatePayload isFinal => some (.terminatePayload isFinal)
  | _ => none

/-- `TryFrom<Message>` for `DataMessage`. -/
def toDataMessage : Message → Option DataMessage
  | .dataSendEntry message => some (.sendEntry message)
  | .dataSendPayload bytes => some (.sendPayload bytes)
  | .dataSetMetadata _ => some .setMetadata
  | _ => none

/-- `TryFrom<Message>` for `SetupBindStaticToken`. -/
def toStaticToken : Message → Option StaticToken
  | .setupBindStaticToken staticToken => some staticToken
  | _ => none

/-- `TryFrom<Message>` for `SetupBindReadCapability`. -/
def toReadCapability : Message → Option SetupBindReadCapability
  | .setupBindReadCapability message => some message
  | _ => none

/-- `TryFrom<Message>` for `SetupBindAreaOfInterest`. -/
def toAreaOfInterest : Message → Option SetupBindAreaOfInterest
  | .setupBindAreaOfInterest message => some message
  | _ => none

end Message

/-! ## Typed receivers -/

section Receivers

variable [PaiScheme]

/-- What the receiver of a logical channel yields, by the fields of
`LogicalChannelReceivers`. -/
def LogicalChannel.Item : LogicalChannel → Type
  | .intersection => IntersectionMessage
  | .reconciliation => ReconciliationMessage
  | .staticToken => StaticToken
  | .capability => SetupBindReadCapability
  | .areaOfInterest => SetupBindAreaOfInterest
  | .data => DataMessage

/-- `message.try_into()` in the receiver of a logical channel. -/
def LogicalChannel.tryInto : (ch : LogicalChannel) → Message → Option ch.Item
  | .intersection => Message.toIntersectionMessage
  | .reconciliation => Message.toReconciliationMessage
  | .staticToken => Message.toStaticToken
  | .capability => Message.toReadCapability
  | .areaOfInterest => Message.toAreaOfInterest
  | .data => Message.toDataMessage

/-- A message fits the receiver of its own channel, and no other. -/
theorem LogicalChannel.isSome_tryInto (ch : LogicalChannel) (message : Message) :
    (ch.tryInto message).isSome = decide (message.channel = .logical ch) := by
  cases ch <;> cases message <;> rfl

/-- The errors of `MessageReceiver`. -/
inductive ReceiveError where
  | read (error : ReadError)
  | wrongChannel
  deriving DecidableEq, Repr

namespace MessageReceiver

/-- The conversion in `MessageReceiver::poll_recv`. -/
def convert (ch : LogicalChannel) :
    Option (Except ReadError Message) → Option (Except ReceiveError ch.Item)
  | none => none
  | some (.error e) => some (.error (.read e))
  | some (.ok message) =>
      match ch.tryInto message with
      | some item => some (.ok item)
      | none => some (.error .wrongChannel)

/-- `MessageReceiver::poll_recv`. -/
def pollRecv [Decoder Message] (ch : LogicalChannel) (inner : Inner) (waker : Waker) :
    Poll (Option (Except ReceiveError ch.Item)) × Inner :=
  match inner.pollRecvMessage (T := Message) waker with
  | (.ready message, inner) => (.ready (convert ch message), inner)
  | (.pending, inner) => (.pending, inner)

theorem convert_eq_wrongChannel_iff (ch : LogicalChannel)
    (res : Option (Except ReadError Message)) :
    convert ch res = some (.error .wrongChannel) ↔
      ∃ message, res = some (.ok message) ∧ message.channel ≠ .logical ch := by
  cases res with
  | none => simp [convert]
  | some res =>
      cases res with
      | error e => simp [convert]
      | ok message =>
          have hfits := ch.isSome_tryInto message
          cases hitem : ch.tryInto message with
          | none =>
              rw [hitem] at hfits
              simp only [convert, hitem, true_iff]
              exact ⟨message, rfl, of_decide_eq_false hfits.symm⟩
          | some item =>
              rw [hitem] at hfits
              simp only [convert, hitem]
              constructor
              · intro h
                cases h
              · rintro ⟨m, hm, hne⟩
                obtain rfl := Except.ok.inj (Option.some.inj hm)
                exact absurd (of_decide_eq_true hfits.symm) hne

end MessageReceiver

end Receivers

/-! ## Senders -/

/-- `LogicalChannelSenders`, with the stream behind each sender. -/
structure LogicalChannelSenders (S : Type) where
  intersectionSend : S
  reconciliationSend : S
  staticTokensSend : S
  aoiSend : S
  capabilitySend : S
  dataSend : S
  deriving DecidableEq

/-- `LogicalChannelSenders::get`. -/
def LogicalChannelSenders.get {S : Type} (senders : LogicalChannelSenders S) : LogicalChannel → S
  | .intersection => senders.intersectionSend
  | .reconciliation => senders.reconciliationSend
  | .staticToken => senders.staticTokensSend
  | .capability => senders.capabilitySend
  | .areaOfInterest => senders.aoiSend
  | .data => senders.dataSend

/-- `ChannelSenders`. -/
structure ChannelSenders (S : Type) where
  controlSend : S
  logicalSend : LogicalChannelSenders S
  deriving DecidableEq

/-- `ChannelSenders::get`. -/
def ChannelSenders.get {S : Type} (senders : ChannelSenders S) : Channel → S
  | .control => senders.controlSend
  | .logical channel => senders.logicalSend.get channel

/-- `LogicalChannelReceivers`. -/
structure LogicalChannelReceivers (R : Type) where
  intersectionRecv : R
  reconciliationRecv : R
  staticTokensRecv : R
  capabilityRecv : R
  aoiRecv : R
  dataRecv : R
  deriving DecidableEq

/-- `ChannelReceivers`. -/
structure ChannelReceivers (R : Type) where
  controlRecv : R
  logicalRecv : LogicalChannelReceivers R
  deriving DecidableEq

/-- The receiver that the loop of each channel reads from. -/
def ChannelReceivers.get {R : Type} (receivers : ChannelReceivers R) : Channel → R
  | .control => receivers.controlRecv
  | .logical .intersection => receivers.logicalRecv.intersectionRecv
  | .logical .reconciliation => receivers.logicalRecv.reconciliationRecv
  | .logical .staticToken => receivers.logicalRecv.staticTokensRecv
  | .logical .capability => receivers.logicalRecv.capabilityRecv
  | .logical .areaOfInterest => receivers.logicalRecv.aoiRecv
  | .logical .data => receivers.logicalRecv.dataRecv

/-- `Channels`. -/
structure Channels (S R : Type) where
  send : ChannelSenders S
  recv : ChannelReceivers R
  deriving DecidableEq

end IrohWillow
