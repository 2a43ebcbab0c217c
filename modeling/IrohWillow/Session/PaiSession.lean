import IrohWillow.Session.AoiOutputs
import IrohWillow.Session.PaiExchange

/-!
# Two sessions find their intersections

The loops of two sessions that have to do with private area intersection
(`session/run.rs`): the control loop, which reveals the nonce and carries the
requests for subspace capabilities, the loop of the `PaiFinder`, that of the
`IntersectionFinder`, which sends a read capability for the first intersection
of an authorisation, and `caps_recv_loop`. Messages of one channel arrive in
order, there is no order between the control, the intersection and the
capability channel. An error of any loop ends the session.

Areas of interest are sent but not delivered here: they do not come back to the
`PaiFinder`.
-/

namespace IrohWillow

/-- The messages of the control channel, without those for resource control. -/
inductive ControlMessage where
  | commitmentReveal (nonce : AccessChallenge)
  | paiRequestSubspaceCapability (handle : Nat)
  | paiReplySubspaceCapability (message : PaiReplySubspaceCapability)
  deriving DecidableEq

section Model

variable [PaiScheme]

/-- One session, without its `PaiFinder`. -/
structure PaiPeer where
  /-- `store.secrets()` -/
  secrets : SecretStorage
  /-- The intersection finder, with the capabilities of the session. -/
  intersections : IntersectionFinder
  /-- `pai_inbox` -/
  paiInbox : List PaiFinder.Input := []
  /-- `intersection_inbox` -/
  intersectionInbox : List IntersectionFinder.Input := []
  /-- The messages sent on the control channel. -/
  control : List ControlMessage
  /-- The messages sent on the capability channel. -/
  capability : List SetupBindReadCapability := []
  /-- A loop has returned an error. -/
  failed : Option (Error ⊕ PaiFinder.Failure) := none
  /-- The challenge at each call of `signable` or `verify`; the code does not keep
  this. -/
  calls : List ChallengeState := []

namespace PaiPeer

/-- The capabilities of the session. -/
def caps (s : PaiPeer) : Capabilities := s.intersections.caps

/-- A loop returns an error. -/
def fail (s : PaiPeer) (e : Error) : PaiPeer := { s with failed := some (.inl e) }

/-- `signable` or `verify` of the challenge is called. -/
def challenged (s : PaiPeer) : PaiPeer := { s with calls := s.calls ++ [s.caps.challenge] }

/-- Send into `pai_inbox`. -/
def pushPai (s : PaiPeer) (input : PaiFinder.Input) : PaiPeer :=
  { s with paiInbox := s.paiInbox ++ [input] }

/-- What `pai_loop` does with an output; the intersection channel is that of the
exchange. -/
def onPaiOutput (s : PaiPeer) (output : PaiFinder.Output) : PaiPeer :=
  if s.failed.isSome then s
  else
    match output with
    | .sendMessage _ => s
    | .requestSubspaceCapability handle =>
        { s with control := s.control ++ [.paiRequestSubspaceCapability handle] }
    | .newIntersection i =>
        { s with
          intersectionInbox := s.intersectionInbox ++ [.paiIntersection i.authorisation i.handle] }
    | .signAndSendSubspaceCap handle capability =>
        match s.caps.signSubspaceCapability s.secrets capability handle with
        | .error e => s.challenged.fail e
        | .ok message =>
            { s.challenged with control := s.control ++ [.paiReplySubspaceCapability message] }

/-- What `intersection_loop` does with an output. -/
def onIntersectionOutput (s : PaiPeer) (output : IntersectionFinder.Output) : PaiPeer :=
  if s.failed.isSome then s
  else
    match output with
    | .sendMessage _ _ => s
    | .submitAuthorisation authorisation => s.pushPai (.submitAuthorisation authorisation)
    | .aoiIntersection _ => s
    | .signAndSendCapability handle capability =>
        match s.caps.signCapability s.secrets handle capability with
        | .error e => s.challenged.fail e
        | .ok message => { s.challenged with capability := s.capability ++ [message] }

/-- One iteration of `intersection_loop`. -/
def takeIntersection [WillowDataModel] (s : PaiPeer) : Option PaiPeer :=
  match s.intersectionInbox with
  | [] => none
  | input :: rest =>
      let s := { s with intersectionInbox := rest }
      match s.intersections.onInput input with
      | .error e => some (s.fail e)
      | .ok finder =>
          let new := finder.outputs.drop s.intersections.outputs.length
          some (new.foldl onIntersectionOutput { s with intersections := finder })

/-- One iteration of `control_loop`. -/
def onControlMessage [Meadowcap] [ChallengeHash] (s : PaiPeer) (ourRole : Role) :
    ControlMessage → PaiPeer
  | .commitmentReveal nonce =>
      match s.caps.receivedCommitmentReveal ourRole nonce with
      | .error e => s.fail e
      | .ok caps =>
          ({ s with intersections := { s.intersections with caps := caps } }).pushPai .established
  | .paiRequestSubspaceCapability handle =>
      if !s.caps.challenge.isRevealed then s.fail .invalidMessageInCurrentState
      else s.pushPai (.receivedSubspaceCapRequest handle)
  | .paiReplySubspaceCapability message =>
      if !s.caps.challenge.isRevealed then s.fail .invalidMessageInCurrentState
      else
        match s.caps.verifySubspaceCap message.capability message.signature with
        | .error e => s.challenged.fail e
        | .ok () => s.challenged.pushPai (.receivedVerifiedSubspaceCapReply message.handle
            message.capability.grantedNamespace)

/-- One iteration of `caps_recv_loop`. -/
def onReadCapability [Meadowcap] (s : PaiPeer) (message : SetupBindReadCapability) : PaiPeer :=
  match s.caps.validateAndBindTheirs message.capability message.signature with
  | .error e => s.challenged.fail e
  | .ok caps =>
      ({ s.challenged with intersections := { s.intersections with caps := caps } }).pushPai
        (.receivedReadCapForIntersection message.handle)

end PaiPeer

/-- Two sessions. -/
structure PaiSession where
  exchange : PaiExchange
  peer : Role → PaiPeer
  /-- How many messages of the other session were taken from the control channel. -/
  receivedControl : Role → Nat := fun _ => 0
  /-- How many messages of the other session were taken from the capability
  channel. -/
  receivedCapability : Role → Nat := fun _ => 0

namespace PaiSession

/-- What may happen in the session `p`. -/
inductive Action where
  /-- Interests are submitted. -/
  | addInterests (p : Role) (interests : List (ReadAuthorisation × List AreaOfInterest))
  /-- The control loop takes the next message. -/
  | deliverControl (p : Role)
  /-- `caps_recv_loop` takes the next message. -/
  | deliverCapability (p : Role)
  /-- The `PaiFinder` takes the next input of `pai_inbox`. -/
  | takePai (p : Role) (order : List Nat) (drained : List ReadAuthorisation)
  /-- The `PaiFinder` takes the next message of the intersection channel. -/
  | deliverIntersection (p : Role) (order : List Nat)
  /-- The `IntersectionFinder` takes the next input. -/
  | takeIntersection (p : Role)
  deriving DecidableEq

/-- The `PaiFinder` of `p` has returned from a call: its outputs are processed,
then an error ends the session. -/
def afterPai (s : PaiSession) (p : Role) (exchange : PaiExchange) (peer : PaiPeer) : PaiPeer :=
  let new := (exchange.finder p).outputs.drop (s.exchange.finder p).outputs.length
  let peer := new.foldl PaiPeer.onPaiOutput peer
  match exchange.failed p with
  | none => peer
  | some e => { peer with failed := some (peer.failed.getD (.inr e)) }

variable [Meadowcap] [ChallengeHash] [WillowDataModel]

/-- One step; `none` when the action is not possible. -/
def step (s : PaiSession) : Action → Option PaiSession
  | .addInterests p interests =>
      if (s.peer p).failed.isSome then none
      else
        let peer := { s.peer p with
          intersectionInbox := (s.peer p).intersectionInbox ++ [.addInterests interests] }
        some { s with peer := Function.update s.peer p peer }
  | .deliverControl p =>
      if (s.peer p).failed.isSome then none
      else
        match (s.peer p.other).control[s.receivedControl p]? with
        | none => none
        | some message => some { s with
            peer := Function.update s.peer p ((s.peer p).onControlMessage p message)
            receivedControl := Function.update s.receivedControl p (s.receivedControl p + 1) }
  | .deliverCapability p =>
      if (s.peer p).failed.isSome then none
      else
        match (s.peer p.other).capability[s.receivedCapability p]? with
        | none => none
        | some message => some { s with
            peer := Function.update s.peer p ((s.peer p).onReadCapability message)
            receivedCapability :=
              Function.update s.receivedCapability p (s.receivedCapability p + 1) }
  | .takePai p order drained =>
      if (s.peer p).failed.isSome then none
      else
        match (s.peer p).paiInbox with
        | [] => none
        | input :: rest =>
            (s.exchange.step (.input p order drained input)).map fun exchange =>
              { s with
                exchange := exchange
                peer := Function.update s.peer p
                  (s.afterPai p exchange { s.peer p with paiInbox := rest }) }
  | .deliverIntersection p order =>
      if (s.peer p).failed.isSome then none
      else
        (s.exchange.step (.deliver p order)).map fun exchange =>
          { s with
            exchange := exchange
            peer := Function.update s.peer p (s.afterPai p exchange (s.peer p)) }
  | .takeIntersection p =>
      if (s.peer p).failed.isSome then none
      else
        (s.peer p).takeIntersection.map fun peer =>
          { s with peer := Function.update s.peer p peer }

/-- The two sessions at the start. Each control loop has sent its nonce, and each
session has received the commitment to the nonce of the other. -/
def start (scalar : Role → PsiScalar) (nonce : Role → AccessChallenge)
    (secrets : Role → SecretStorage) : PaiSession :=
  { exchange := PaiExchange.start scalar
    peer := fun p =>
      { secrets := secrets p
        intersections :=
          { caps := Capabilities.new (nonce p) (ChallengeHash.hash (nonce p.other)) }
        control := [.commitmentReveal (nonce p)] } }

/-- No message and no input is on its way. -/
structure Quiet (s : PaiSession) : Prop where
  intersection : s.exchange.Quiet
  control : ∀ p, s.receivedControl p = (s.peer p.other).control.length
  capability : ∀ p, s.receivedCapability p = (s.peer p.other).capability.length
  paiInbox : ∀ p, (s.peer p).paiInbox = []
  intersectionInbox : ∀ p, (s.peer p).intersectionInbox = []

/-! ## What the steps do -/

variable {s s' : PaiSession} {p : Role}

omit [Meadowcap] [ChallengeHash] [WillowDataModel] in
theorem isSome_failed_eq_none {s : PaiSession} {p : Role} (h : ¬ (s.peer p).failed.isSome = true) :
    (s.peer p).failed = none := by
  simpa using h

theorem step_addInterests {interests : List (ReadAuthorisation × List AreaOfInterest)}
    (h : step s (.addInterests p interests) = some s') : (s.peer p).failed = none ∧
      s' = { s with peer := Function.update s.peer p { s.peer p with
        intersectionInbox := (s.peer p).intersectionInbox ++ [.addInterests interests] } } := by
  simp only [step] at h
  split at h
  · cases h
  · rename_i hfailed
    exact ⟨isSome_failed_eq_none hfailed, (Option.some.inj h).symm⟩

theorem step_deliverControl (h : step s (.deliverControl p) = some s') :
    ∃ message, (s.peer p).failed = none ∧
      (s.peer p.other).control[s.receivedControl p]? = some message ∧
      s' = { s with
        peer := Function.update s.peer p ((s.peer p).onControlMessage p message)
        receivedControl := Function.update s.receivedControl p (s.receivedControl p + 1) } := by
  simp only [step] at h
  split at h
  · cases h
  · rename_i hfailed
    split at h
    · cases h
    · rename_i message hmessage
      exact ⟨message, isSome_failed_eq_none hfailed, hmessage, (Option.some.inj h).symm⟩

theorem step_deliverCapability (h : step s (.deliverCapability p) = some s') :
    ∃ message, (s.peer p).failed = none ∧
      (s.peer p.other).capability[s.receivedCapability p]? = some message ∧
      s' = { s with
        peer := Function.update s.peer p ((s.peer p).onReadCapability message)
        receivedCapability :=
          Function.update s.receivedCapability p (s.receivedCapability p + 1) } := by
  simp only [step] at h
  split at h
  · cases h
  · rename_i hfailed
    split at h
    · cases h
    · rename_i message hmessage
      exact ⟨message, isSome_failed_eq_none hfailed, hmessage, (Option.some.inj h).symm⟩

theorem step_takePai {order : List Nat} {drained : List ReadAuthorisation}
    (h : step s (.takePai p order drained) = some s') :
    ∃ input rest, (s.peer p).failed = none ∧ (s.peer p).paiInbox = input :: rest ∧
      s.exchange.step (.input p order drained input) = some s'.exchange ∧
      s' = { s with
        exchange := s'.exchange
        peer := Function.update s.peer p
          (s.afterPai p s'.exchange { s.peer p with paiInbox := rest }) } := by
  simp only [step] at h
  split at h
  · cases h
  · rename_i hfailed
    split at h
    · cases h
    · rename_i input rest hinbox
      obtain ⟨exchange, hex, rfl⟩ := Option.map_eq_some_iff.mp h
      exact ⟨input, rest, isSome_failed_eq_none hfailed, hinbox, hex, rfl⟩

theorem step_deliverIntersection {order : List Nat}
    (h : step s (.deliverIntersection p order) = some s') :
    (s.peer p).failed = none ∧
      s.exchange.step (.deliver p order) = some s'.exchange ∧
      s' = { s with
        exchange := s'.exchange
        peer := Function.update s.peer p (s.afterPai p s'.exchange (s.peer p)) } := by
  simp only [step] at h
  split at h
  · cases h
  · rename_i hfailed
    obtain ⟨exchange, hex, rfl⟩ := Option.map_eq_some_iff.mp h
    exact ⟨isSome_failed_eq_none hfailed, hex, rfl⟩

theorem step_takeIntersection (h : step s (.takeIntersection p) = some s') :
    ∃ peer, (s.peer p).failed = none ∧ (s.peer p).takeIntersection = some peer ∧
      s' = { s with peer := Function.update s.peer p peer } := by
  simp only [step] at h
  split at h
  · cases h
  · rename_i hfailed
    obtain ⟨peer, hpeer, rfl⟩ := Option.map_eq_some_iff.mp h
    exact ⟨peer, isSome_failed_eq_none hfailed, hpeer, rfl⟩

/-- The session that takes a step. -/
def Action.peer : Action → Role
  | .addInterests p _ => p
  | .deliverControl p => p
  | .deliverCapability p => p
  | .takePai p _ _ => p
  | .deliverIntersection p _ => p
  | .takeIntersection p => p

/-- The action of the exchange that an action of the sessions runs. -/
inductive Causes (s : PaiSession) : Action → PaiExchange.Action → Prop
  | input {p : Role} {order : List Nat} {drained : List ReadAuthorisation}
      {input : PaiFinder.Input} {rest : List PaiFinder.Input}
      (hinbox : (s.peer p).paiInbox = input :: rest) :
      Causes s (.takePai p order drained) (.input p order drained input)
  | deliver {p : Role} {order : List Nat} :
      Causes s (.deliverIntersection p order) (.deliver p order)

/-- The sessions run the exchange of `PaiExchange`. -/
theorem exchange_of_step {a : Action} (h : step s a = some s') :
    s'.exchange = s.exchange ∨ ∃ a', Causes s a a' ∧
      s.exchange.step a' = some s'.exchange := by
  cases a with
  | addInterests p interests =>
      obtain ⟨-, rfl⟩ := step_addInterests h
      exact .inl rfl
  | deliverControl p =>
      obtain ⟨message, -, -, rfl⟩ := step_deliverControl h
      exact .inl rfl
  | deliverCapability p =>
      obtain ⟨message, -, -, rfl⟩ := step_deliverCapability h
      exact .inl rfl
  | takePai p order drained =>
      obtain ⟨input, rest, -, hinbox, hex, -⟩ := step_takePai h
      exact .inr ⟨_, .input hinbox, hex⟩
  | deliverIntersection p order =>
      obtain ⟨-, hex, -⟩ := step_deliverIntersection h
      exact .inr ⟨_, .deliver, hex⟩
  | takeIntersection p =>
      obtain ⟨peer, -, -, rfl⟩ := step_takeIntersection h
      exact .inl rfl

omit [Meadowcap] [ChallengeHash] [WillowDataModel] in
theorem Causes.of_input {a : Action} {p : Role} {order : List Nat}
    {drained : List ReadAuthorisation} {input : PaiFinder.Input}
    (h : Causes s a (.input p order drained input)) :
    ∃ rest, a = .takePai p order drained ∧ (s.peer p).paiInbox = input :: rest := by
  cases h with
  | input hinbox => exact ⟨_, rfl, hinbox⟩

omit [Meadowcap] [ChallengeHash] [WillowDataModel] in
theorem Causes.peer {a : Action} {a' : PaiExchange.Action} (h : Causes s a a') :
    a'.peer = a.peer := by
  cases h with
  | input _ => rfl
  | deliver => rfl

/-- A step leaves the other session alone. -/
theorem other_of_step {a : Action} (h : step s a = some s') :
    s'.peer a.peer.other = s.peer a.peer.other ∧
      s'.receivedControl a.peer.other = s.receivedControl a.peer.other ∧
      s'.receivedCapability a.peer.other = s.receivedCapability a.peer.other := by
  have hne := a.peer.other_ne
  cases a with
  | addInterests p interests =>
      obtain ⟨-, rfl⟩ := step_addInterests h
      exact ⟨Function.update_of_ne hne _ _, rfl, rfl⟩
  | deliverControl p =>
      obtain ⟨message, -, -, rfl⟩ := step_deliverControl h
      exact ⟨Function.update_of_ne hne _ _, Function.update_of_ne hne _ _, rfl⟩
  | deliverCapability p =>
      obtain ⟨message, -, -, rfl⟩ := step_deliverCapability h
      exact ⟨Function.update_of_ne hne _ _, rfl, Function.update_of_ne hne _ _⟩
  | takePai p order drained =>
      obtain ⟨input, rest, -, -, -, hs'⟩ := step_takePai h
      rw [hs']
      exact ⟨Function.update_of_ne hne _ _, rfl, rfl⟩
  | deliverIntersection p order =>
      obtain ⟨-, -, hs'⟩ := step_deliverIntersection h
      rw [hs']
      exact ⟨Function.update_of_ne hne _ _, rfl, rfl⟩
  | takeIntersection p =>
      obtain ⟨peer, -, -, rfl⟩ := step_takeIntersection h
      exact ⟨Function.update_of_ne hne _ _, rfl, rfl⟩

end PaiSession

end Model

/-! ## Sample values -/

namespace PaiSession.Sample

open IrohWillow.Sample

/-- The nonces are their own commitments. -/
@[reducible] def plainHash : ChallengeHash := ⟨id⟩

/-- Areas of interest are not looked at. -/
@[reducible] def noAreas : WillowDataModel where
  greaterButNotPrefixed _ := none
  intersection _ _ := none

attribute [local instance] countingScheme acceptingSignatures plainHash noAreas

def secrets : SecretStorage := ⟨fun _ _ => some (.ofByte 0)⟩

/-- The sessions of the samples. -/
def session : PaiSession :=
  start PaiExchange.Sample.scalars (fun _ => .ofByte 3) fun _ => secrets

/-- A session gets interests with the authorisations, receives the nonce, and
submits the authorisations in this order. -/
def submit (p : Role) (authorisations : List ReadAuthorisation) : List Action :=
  [.addInterests p (authorisations.map fun a => (a, [])), .takeIntersection p,
    .deliverControl p] ++
    authorisations.map (fun _ => .takePai p [] []) ++ [.takePai p [] authorisations]

/-- Messages of the intersection channel are delivered, when up to five fragments
are bound. -/
def deliver (p : Role) (n : Nat) : List Action :=
  List.replicate n (.deliverIntersection p [0, 1, 2, 3, 4])

/-- The next intersection is sent as a read capability, and received by the other
session. -/
def sendReadCapability (p : Role) : List Action :=
  [.takeIntersection p, .deliverCapability p.other, .takePai p.other [0, 1, 2, 3, 4] []]

end PaiSession.Sample

end IrohWillow
