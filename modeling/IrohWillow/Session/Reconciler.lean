import IrohWillow.Session.Payload
import IrohWillow.Session.StaticTokens

/-!
# The reconciler

`session/reconciler.rs`: three-dimensional range-based set reconciliation of
one or more targets, each the intersection of an area of interest of ours with
one of the peer's. A peer sends the fingerprint of a range; the other answers
by saying that it matches, by announcing and sending its entries, or by
splitting the range.

Every message that opens a range gets a number from the sender's counter, and
the receiver numbers the ranges it is sent with a counter of its own. An answer
carries the number of the range that it *covers*; a target is complete when all
our ranges are covered and no entries are outstanding.

Functions take and return the state they change. Messages are appended to logs;
with each message the log records what it was sent for, which is not part of the
message.
-/

namespace IrohWillow

/-- `ReconciliationSendFingerprint`. -/
structure ReconciliationSendFingerprint where
  range : Range3d
  fingerprint : Fingerprint
  senderHandle : AreaOfInterestHandle
  receiverHandle : AreaOfInterestHandle
  covers : Option Nat
  deriving DecidableEq

/-- `ReconciliationAnnounceEntries`. -/
structure ReconciliationAnnounceEntries where
  range : Range3d
  isEmpty : Bool
  wantResponse : Bool
  willSort : Bool
  senderHandle : AreaOfInterestHandle
  receiverHandle : AreaOfInterestHandle
  covers : Option Nat
  deriving DecidableEq

/-- `ReconciliationSendEntry`. -/
structure ReconciliationSendEntry where
  entry : Entry
  available : U64
  staticTokenHandle : Nat
  dynamicToken : DynamicToken
  deriving DecidableEq

/-- `ReconciliationMessage`. -/
inductive ReconciliationMessage where
  | sendFingerprint (message : ReconciliationSendFingerprint)
  | announceEntries (message : ReconciliationAnnounceEntries)
  | sendEntry (message : ReconciliationSendEntry)
  | sendPayload (bytes : Chunk)
  | terminatePayload (isFinal : Bool)
  deriving DecidableEq

/-- `TargetId`: our handle and their handle. -/
abbrev TargetId := AreaOfInterestHandle × AreaOfInterestHandle

/-- `ReconciliationSendFingerprint::handles`. -/
def ReconciliationSendFingerprint.handles (m : ReconciliationSendFingerprint) : TargetId :=
  (m.receiverHandle, m.senderHandle)

/-- `ReconciliationAnnounceEntries::handles`. -/
def ReconciliationAnnounceEntries.handles (m : ReconciliationAnnounceEntries) : TargetId :=
  (m.receiverHandle, m.senderHandle)

namespace Reconciler

/-- `Output`. -/
inductive Output where
  | reconciledArea (namespaceId : NamespaceId) (area : AreaOfInterest)
  | reconciledAll
  deriving DecidableEq

/-- A message in the log: what was sent, the target it was sent for, and the
number the sender gave to the range it opens. -/
structure Sent where
  message : ReconciliationMessage
  target : AoiIntersection
  opened : Option Nat
  deriving DecidableEq

/-- `Target`. -/
structure Target where
  intersection : AoiIntersection
  ourUncoveredRanges : Finset Nat := ∅
  started : Bool := false
  ourRangeCounter : Nat := 0
  theirRangeCounter : Nat := 0
  deriving DecidableEq

/-- `EntryStateInner`. -/
structure EntryStateInner where
  target : TargetId
  currentPayload : CurrentPayload := {}
  deriving DecidableEq

section Model

variable (σ : Type) [Meadowcap]

/-- `Shared`, with the logs of what was sent on the reconciliation and on the
static token channel, of the ranges whose fingerprint was answered, and of the
entries that were ingested. -/
structure Shared where
  store : σ
  ourRole : Role
  staticTokens : StaticTokens := {}
  sessionId : SessionId
  maxEagerPayloadSize : U64
  sent : List Sent := []
  sentTokens : List StaticToken := []
  outputs : List Output := []
  answered : List (AoiIntersection × Range3d) := []
  ingested : List (AuthorisedEntry × EntryOrigin) := []

end Model

end Reconciler

/-- `Reconciler`, with its `TargetMap`. -/
structure Reconciler (σ : Type) [Meadowcap] where
  shared : Reconciler.Shared σ
  targets : AList (fun _ : TargetId => Reconciler.Target) := ∅
  inbox : List AoiIntersection := []
  inboxClosed : Bool := false
  entryState : Option Reconciler.EntryStateInner := none

namespace Reconciler

section Model

variable {σ : Type} [Meadowcap] [Storage σ]

/-! ## Sending -/

/-- Append a message to the log. -/
def Shared.send (sh : Shared σ) (target : AoiIntersection) (message : ReconciliationMessage)
    (opened : Option Nat) : Shared σ :=
  { sh with sent := sh.sent ++ [⟨message, target, opened⟩] }

/-- `StaticTokens::bind_and_send_ours`. -/
def Shared.bindAndSendOurs (sh : Shared σ) (token : StaticToken) : Nat × Shared σ :=
  match sh.staticTokens.bindOurs token with
  | ((handle, true), tokens) =>
      (handle, { sh with staticTokens := tokens, sentTokens := sh.sentTokens ++ [token] })
  | ((handle, false), tokens) => (handle, { sh with staticTokens := tokens })

namespace Target

/-- `Target::mark_our_next_range_pending`, with the number of the range. -/
def markOurNextRangePending (t : Target) : Nat × Target :=
  (t.ourRangeCounter,
    { t with
      ourUncoveredRanges := insert t.ourRangeCounter t.ourUncoveredRanges
      ourRangeCounter := t.ourRangeCounter + 1 })

/-- `Target::mark_our_range_covered`. -/
def markOurRangeCovered (t : Target) (rangeCount : Nat) : Except Failure Target :=
  if rangeCount ∈ t.ourUncoveredRanges then
    .ok { t with ourUncoveredRanges := t.ourUncoveredRanges.erase rangeCount }
  else .error (.error (.invalidState "attempted to mark an unknown range as covered"))

/-- `Target::next_range_count_theirs`. -/
def nextRangeCountTheirs (t : Target) : Nat × Target :=
  (t.theirRangeCounter, { t with theirRangeCounter := t.theirRangeCounter + 1 })

/-- `Target::is_complete`. -/
def isComplete (t : Target) : Bool := t.started && decide (t.ourUncoveredRanges = ∅)

/-- `Target::send_fingerprint`. -/
def sendFingerprint (sh : Shared σ) (t : Target) (range : Range3d) (fingerprint : Fingerprint)
    (covers : Option Nat) : Target × Shared σ :=
  let (number, t) := t.markOurNextRangePending
  let message : ReconciliationSendFingerprint :=
    { range := range
      fingerprint := fingerprint
      senderHandle := t.intersection.ourHandle
      receiverHandle := t.intersection.theirHandle
      covers := covers }
  (t, sh.send t.intersection (.sendFingerprint message) (some number))

/-- The payload of an entry in `announce_and_send_entries`: its chunks when it
is small enough and found. -/
def sendPayload (sh : Shared σ) (target : AoiIntersection) (entry : Entry) :
    Except Failure Unit × Shared σ :=
  if entry.payloadLength ≤ sh.maxEagerPayloadSize then
    match Storage.payloadChunks sh.store entry.payloadDigest with
    | .error e => (.error (.error e), sh)
    | .ok none => (.ok (), sh)
    | .ok (some chunks) =>
        (.ok (), chunks.foldl (fun sh chunk => sh.send target (.sendPayload chunk) none) sh)
  else (.ok (), sh)

/-- The loop of `announce_and_send_entries` over the entries of the range. -/
def sendEntries (target : AoiIntersection) :
    List (Except Error AuthorisedEntry) → Shared σ → Except Failure Unit × Shared σ
  | [], sh => (.ok (), sh)
  | .error e :: _, sh => (.error (.error e), sh)
  | .ok a :: rest, sh =>
      let (handle, sh) := sh.bindAndSendOurs a.token.capability
      let sh := sh.send target (.sendEntry
        { entry := a.entry
          available := a.entry.payloadLength
          staticTokenHandle := handle
          dynamicToken := a.token.signature }) none
      match sendPayload sh target a.entry with
      | (.error e, sh) => (.error e, sh)
      | (.ok (), sh) =>
          sendEntries target rest (sh.send target (.terminatePayload rest.isEmpty) none)

/-- `Target::announce_and_send_entries`. -/
def announceAndSendEntries (sh : Shared σ) (t : Target) (range : Range3d) (wantResponse : Bool)
    (covers : Option Nat) (isEmpty : Bool) : Except Failure Target × Shared σ :=
  let (opened, t) :=
    if wantResponse then
      let (number, t) := t.markOurNextRangePending
      (some number, t)
    else (none, t)
  -- without an iterator we know for sure that our range is empty
  let iter := if isEmpty then .ok []
    else Storage.getAuthorisedEntries sh.store t.intersection.namespaceId range
  match iter with
  | .error e => (.error (.error e), sh)
  | .ok entries =>
      let message : ReconciliationAnnounceEntries :=
        { range := range
          isEmpty := entries.isEmpty
          wantResponse := wantResponse
          willSort := false
          senderHandle := t.intersection.ourHandle
          receiverHandle := t.intersection.theirHandle
          covers := covers }
      match sendEntries t.intersection entries
          (sh.send t.intersection (.announceEntries message) opened) with
      | (.error e, sh) => (.error e, sh)
      | (.ok (), sh) => (.ok t, sh)

/-! ## Answering -/

/-- The loop of case 3 of `received_send_fingerprint` over the parts of the
range; only the last part covers it. -/
def answerParts (rangeCount : Nat) :
    List (Except Error (Range3d × SplitAction)) → Shared σ → Target →
      Except Failure Target × Shared σ
  | [], sh, t => (.ok t, sh)
  | .error e :: _, sh, _ => (.error (.error e), sh)
  | .ok (subrange, action) :: rest, sh, t =>
      let covers := if rest.isEmpty then some rangeCount else none
      match action with
      | .sendEntries count =>
          match announceAndSendEntries sh t subrange true covers (count == 0) with
          | (.error e, sh) => (.error e, sh)
          | (.ok t, sh) => answerParts rangeCount rest sh t
      | .sendFingerprint fingerprint =>
          let (t, sh) := sendFingerprint sh t subrange fingerprint covers
          answerParts rangeCount rest sh t

/-- The part of `received_send_fingerprint` that answers, for the number the
range got. -/
def answerFingerprint (sh : Shared σ) (t : Target) (message : ReconciliationSendFingerprint)
    (rangeCount : Nat) : Except Failure Target × Shared σ :=
  match Storage.fingerprint sh.store t.intersection.namespaceId message.range with
  | .error e => (.error (.error e), sh)
  | .ok ourFingerprint =>
      let sh := { sh with answered := sh.answered ++ [(t.intersection, message.range)] }
      -- case 1: fingerprint match
      if ourFingerprint = message.fingerprint then
        announceAndSendEntries sh t message.range false (some rangeCount) true
      -- case 2: fingerprint is empty
      else if message.fingerprint.isEmpty then
        announceAndSendEntries sh t message.range true (some rangeCount) false
      -- case 3: fingerprint doesn't match and is non-empty
      else
        answerParts rangeCount
          (Storage.splitRange sh.store t.intersection.namespaceId message.range {}) sh t

/-- The first lines of both receiving functions: the target is started, and the
range that the message covers is marked. -/
def beginReceive (t : Target) (covers : Option Nat) : Except Failure Target :=
  let t := { t with started := true }
  match covers with
  | none => .ok t
  | some rangeCount => t.markOurRangeCovered rangeCount

/-- `Target::received_send_fingerprint`. -/
def receivedSendFingerprint (sh : Shared σ) (t : Target)
    (message : ReconciliationSendFingerprint) : Except Failure Target × Shared σ :=
  match t.beginReceive message.covers with
  | .error e => (.error e, sh)
  | .ok t =>
      let (rangeCount, t) := t.nextRangeCountTheirs
      answerFingerprint sh t message rangeCount

/-- `Target::received_announce_entries`. -/
def receivedAnnounceEntries (sh : Shared σ) (t : Target)
    (message : ReconciliationAnnounceEntries) : Except Failure Target × Shared σ :=
  match t.beginReceive message.covers with
  | .error e => (.error e, sh)
  | .ok t =>
      if message.wantResponse then
        let (rangeCount, t) := t.nextRangeCountTheirs
        announceAndSendEntries sh t message.range false (some rangeCount) false
      else (.ok t, sh)

/-- `Target::init`, with `initiate` when we are Alfie. -/
def init [WillowDataModel] (sh : Shared σ) (intersection : AoiIntersection) :
    Except Failure Target × Shared σ :=
  let t : Target := { intersection := intersection }
  match sh.ourRole with
  | .betty => (.ok t, sh)
  | .alfie =>
      match intersection.area.toRange with
      | none => (.error .panic, sh)
      | some range =>
          match Storage.fingerprint sh.store intersection.namespaceId range with
          | .error e => (.error (.error e), sh)
          | .ok fingerprint =>
              let (t, sh) := sendFingerprint sh t range fingerprint none
              (.ok t, sh)

end Target

/-! ## Receiving -/

/-- `Reconciler::complete_target`. -/
def completeTarget (r : Reconciler σ) (id : TargetId) : Except Failure Unit × Reconciler σ :=
  match r.targets.lookup id with
  | none => (.error (.error .invalidMessageInCurrentState), r)
  | some t =>
      let targets := r.targets.erase id
      let outputs := r.shared.outputs ++
        [.reconciledArea t.intersection.namespaceId t.intersection.intersection]
      let outputs := if targets.entries.isEmpty then outputs ++ [.reconciledAll] else outputs
      (.ok (), { r with targets := targets, shared := { r.shared with outputs := outputs } })

/-- `TargetMap::init_target` for the next input of the inbox. -/
def takeInput [WillowDataModel] (r : Reconciler σ) : Option (Except Failure Unit × Reconciler σ) :=
  match r.inbox with
  | [] => none
  | intersection :: inbox =>
      match Target.init r.shared intersection with
      | (.error e, sh) => some (.error e, { r with shared := sh, inbox := inbox })
      | (.ok t, sh) =>
          some (.ok (), { r with
            shared := sh
            inbox := inbox
            targets := r.targets.insert intersection.id t })

/-- `TargetMap::get_eventually`: the target, or a panic when it can never come;
`none` while it may still come. -/
def getEventually (r : Reconciler σ) (id : TargetId) : Option (Except Failure Target) :=
  match r.targets.lookup id with
  | some t => some (.ok t)
  | none => if r.inbox = [] ∧ r.inboxClosed then some (.error .panic) else none

/-- The end of both receiving branches: store the target, and complete it when
nothing is left. -/
def finishTarget (r : Reconciler σ) (id : TargetId) (res : Except Failure Target × Shared σ) :
    Except Failure Unit × Reconciler σ :=
  match res with
  | (.error e, sh) => (.error e, { r with shared := sh })
  | (.ok t, sh) =>
      let r := { r with shared := sh, targets := r.targets.insert id t }
      if t.isComplete && r.entryState.isNone then r.completeTarget id else (.ok (), r)

/-- `EntryState::received_announce_entries`. -/
def entryStateAnnounce (r : Reconciler σ) (id : TargetId) (isEmpty : Bool) :
    Except Failure (Reconciler σ) :=
  match r.entryState with
  | some _ => .error (.error .invalidMessageInCurrentState)
  | none => .ok (if isEmpty then r else { r with entryState := some { target := id } })

/-- The `SendEntry` branch of `received_message`, after the entry has been
authorised. -/
def receivedSendEntry (r : Reconciler σ) (message : ReconciliationSendEntry)
    (a : AuthorisedEntry) : Except Failure Unit × Reconciler σ :=
  match r.entryState with
  | none => (.error (.error .invalidMessageInCurrentState), r)
  | some state =>
      match state.currentPayload.ensureNone with
      | .error e => (.error e, r)
      | .ok () =>
          match state.currentPayload.set a.entry.payloadDigest a.entry.payloadLength
              (some message.available) none with
          | .error e => (.error e, r)
          | .ok payload =>
              let r := { r with entryState := some { state with currentPayload := payload } }
              let origin : EntryOrigin := .remote r.shared.sessionId
              match Storage.ingestEntry r.shared.store a origin with
              | (.error e, store) =>
                  (.error (.error e), { r with shared := { r.shared with store := store } })
              | (.ok _, store) =>
                  (.ok (), { r with shared := { r.shared with
                    store := store
                    ingested := r.shared.ingested ++ [(a, origin)] } })

/-- The `SendPayload` branch of `received_message`. -/
def receivedSendPayload (r : Reconciler σ) (bytes : Chunk) : Except Failure Unit × Reconciler σ :=
  match r.entryState with
  | none => (.error (.error .invalidMessageInCurrentState), r)
  | some state =>
      match state.currentPayload.recvChunk bytes with
      | .error e => (.error e, r)
      | .ok payload =>
          (.ok (), { r with entryState := some { state with currentPayload := payload } })

/-- The `TerminatePayload` branch of `received_message`. -/
def receivedTerminatePayload (r : Reconciler σ) (isFinal : Bool) :
    Except Failure Unit × Reconciler σ :=
  match r.entryState with
  | none => (.error (.error .invalidMessageInCurrentState), r)
  | some state =>
      match state.currentPayload.finalize r.shared.store with
      | (.error e, store) => (.error e, { r with shared := { r.shared with store := store } })
      | (.ok payload, store) =>
          let r := { r with shared := { r.shared with store := store } }
          if isFinal then
            let r := { r with entryState := none }
            match r.targets.lookup state.target with
            | none => (.error .panic, r)
            | some t => if t.isComplete then r.completeTarget state.target else (.ok (), r)
          else (.ok (), { r with entryState := some { state with currentPayload := payload } })

/-- `Reconciler::received_message`; `none` while it waits for a target or for a
static token. -/
def receivedMessage (r : Reconciler σ) :
    ReconciliationMessage → Option (Except Failure Unit × Reconciler σ)
  | .sendFingerprint message =>
      (r.getEventually message.handles).map fun
        | .error e => (.error e, r)
        | .ok t => r.finishTarget message.handles (t.receivedSendFingerprint r.shared message)
  | .announceEntries message =>
      match r.entryStateAnnounce message.handles message.isEmpty with
      | .error e => some (.error e, r)
      | .ok r =>
          (r.getEventually message.handles).map fun
            | .error e => (.error e, r)
            | .ok t => r.finishTarget message.handles (t.receivedAnnounceEntries r.shared message)
  | .sendEntry message =>
      match r.shared.staticTokens.authoriseEntryEventually message.entry message.staticTokenHandle
          message.dynamicToken with
      | .pending => none
      | .ready none => some (.error (.error .unauthorisedWrite), r)
      | .ready (some a) => some (r.receivedSendEntry message a)
  | .sendPayload bytes => some (r.receivedSendPayload bytes)
  | .terminatePayload isFinal => some (r.receivedTerminatePayload isFinal)

end Model

end Reconciler

end IrohWillow
