import IrohWillow.Proto.Pai
import IrohWillow.Session.AoiFinder

/-!
# The private area intersection finder

`PaiFinder` of `session/pai_finder.rs`. Two peers send each other the fragments
of their read authorisations, multiplied with a secret scalar, and multiply
what they receive with their own. A fragment of ours and one of the peer meet
when the twice multiplied group members are equal; what happens then depends on
whether our fragment is primary and whether it is the most specific one of its
authorisation.

The finder handles one input after the other. What it puts out goes into a log.
-/

namespace IrohWillow

/-! ## Fragments and their group members -/

/-- `OnIntersection`. -/
inductive OnIntersection where
  | doNothing
  | bindReadCap
  | requestSubspaceCap
  | replyReadCap
  deriving DecidableEq, Repr

/-- `OnIntersection::new`. -/
def OnIntersection.new : FragmentKind → Bool → OnIntersection
  | .primary, true => .bindReadCap
  | .primary, false => .replyReadCap
  | .secondary, true => .requestSubspaceCap
  | .secondary, false => .doNothing

/-- `PaiIntersection`. -/
structure PaiIntersection where
  authorisation : ReadAuthorisation
  handle : Nat
  deriving DecidableEq

/-- `LocalFragmentInfo`. -/
structure LocalFragmentInfo where
  onIntersection : OnIntersection
  authorisation : ReadAuthorisation
  namespaceId : NamespaceId
  path : Path
  subspace : AreaSubspace

/-- `LocalFragmentInfo::new`. -/
def LocalFragmentInfo.new (authorisation : ReadAuthorisation) (fragment : Fragment)
    (kind : FragmentKind) (isMostSpecific : Bool) : LocalFragmentInfo :=
  let (namespaceId, subspace, path) := fragment.intoParts
  { onIntersection := OnIntersection.new kind isMostSpecific
    authorisation := authorisation
    namespaceId := namespaceId
    path := path
    subspace := subspace }

/-- `LocalFragmentInfo::to_pai_intersection`. -/
def LocalFragmentInfo.toPaiIntersection (info : LocalFragmentInfo) (handle : Nat) :
    PaiIntersection := ⟨info.authorisation, handle⟩

/-- `PendingState`. -/
inductive PendingState where
  | pending
  | complete
  deriving DecidableEq, Repr

/-- `GroupState`. -/
structure GroupState [PaiScheme] where
  group : PsiGroup
  state : PendingState
  isSecondary : Bool

/-- `IntersectionMessage`. -/
inductive IntersectionMessage [PaiScheme] where
  /-- `PaiBindFragment` -/
  | bindFragment (groupMember : GroupBytes) (isSecondary : Bool)
  /-- `PaiReplyFragment` -/
  | replyFragment (handle : Nat) (groupMember : GroupBytes)

namespace GroupState

variable [PaiScheme]

/-- `GroupState::new_pending`. -/
def newPending (group : PsiGroup) (isSecondary : Bool) : GroupState := ⟨group, .pending, isSecondary⟩

/-- `GroupState::new_complete`. -/
def newComplete (group : PsiGroup) (isSecondary : Bool) : GroupState :=
  ⟨group, .complete, isSecondary⟩

/-- `GroupState::to_bind_fragment_message`. -/
def toBindFragmentMessage (g : GroupState) : IntersectionMessage :=
  .bindFragment (PaiScheme.toBytes g.group) g.isSecondary

/-- `GroupState::is_complete`. -/
def isComplete (g : GroupState) : Bool := decide (g.state = .complete)

/-- `GroupState::completes_with`. -/
def completesWith (g other : GroupState) : Bool :=
  if !g.isComplete || !other.isComplete then false
  else if g.isSecondary && other.isSecondary then false
  else if !PaiScheme.isGroupEqual g.group other.group then false
  else true

end GroupState

/-- The arguments of a call of `submit_fragment`. -/
structure LocalFragment where
  authorisation : ReadAuthorisation
  fragment : Fragment
  kind : FragmentKind
  isMostSpecific : Bool
  deriving DecidableEq

/-- What the finder keeps of it. -/
def LocalFragment.info (x : LocalFragment) : LocalFragmentInfo :=
  LocalFragmentInfo.new x.authorisation x.fragment x.kind x.isMostSpecific

namespace PaiFinder

/-- What ends the finder: `PaiError`, a missing resource, or a group member
that does not decode. -/
inductive Failure where
  | subspaceCapRequestForInvalidHandle
  | subspaceCapRequestForWrongNamespace
  | missingResource (handle : Nat)
  | invalidPsiGroup
  deriving DecidableEq, Repr

/-- `Input`. -/
inductive Input [PaiScheme] where
  | established
  | submitAuthorisation (authorisation : ReadAuthorisation)
  | receivedMessage (message : IntersectionMessage)
  | receivedSubspaceCapRequest (handle : Nat)
  | receivedVerifiedSubspaceCapReply (handle : Nat) (namespaceId : NamespaceId)
  | receivedReadCapForIntersection (handle : Nat)

/-- `Output`; the messages are those on the intersection channel and
`PaiRequestSubspaceCapability`. -/
inductive Output [PaiScheme] where
  | sendMessage (message : IntersectionMessage)
  | requestSubspaceCapability (handle : Nat)
  | newIntersection (intersection : PaiIntersection)
  | signAndSendSubspaceCap (handle : Nat) (capability : SubspaceCapability)

end PaiFinder

/-- `PaiFinder`, with what it has put out. -/
structure PaiFinder [PaiScheme] where
  scalar : PsiScalar
  fragmentsInfo : Nat → Option LocalFragmentInfo := fun _ => none
  ourIntersectionHandles : ResourceMap GroupState := {}
  theirIntersectionHandles : ResourceMap GroupState := {}
  requestedSubspaceCapHandles : Finset Nat := ∅
  submitted : Finset ReadAuthorisation := ∅
  pending : Option (Finset ReadAuthorisation) := some ∅
  outputs : List PaiFinder.Output := []
  /-- The fragments submitted, by handle; the code does not keep this. -/
  fragments : List LocalFragment := []
  /-- The pairs of an own handle and a handle of the peer on which
  `check_for_intersection` has acted; the code does not keep this. -/
  acted : List (Nat × Nat) := []

namespace PaiFinder

variable [PaiScheme]

/-- `PaiFinder::out`. -/
def out (f : PaiFinder) (output : Output) : PaiFinder := { f with outputs := f.outputs ++ [output] }

/-! ## Submitting authorisations -/

/-- `PaiFinder::submit_fragment`. -/
def submitFragment (f : PaiFinder) (authorisation : ReadAuthorisation) (fragment : Fragment)
    (kind : FragmentKind) (isMostSpecific : Bool) : PaiFinder :=
  let unmixed := PaiScheme.hashIntoGroup fragment
  let multiplied := PaiScheme.scalarMult unmixed f.scalar
  let groupState := GroupState.newPending multiplied kind.isSecondary
  let (handle, ourIntersectionHandles) := f.ourIntersectionHandles.bind groupState
  let info := LocalFragmentInfo.new authorisation fragment kind isMostSpecific
  ({ f with
    ourIntersectionHandles := ourIntersectionHandles
    fragmentsInfo := Function.update f.fragmentsInfo handle (some info)
    fragments := f.fragments ++ [LocalFragment.mk authorisation fragment kind isMostSpecific] }).out
    (.sendMessage groupState.toBindFragmentMessage)

/-- `PaiFinder::submit_authorisation`. -/
def submitAuthorisation (f : PaiFinder) (authorisation : ReadAuthorisation) : PaiFinder :=
  if authorisation ∈ f.submitted then f
  else
    let f := { f with submitted := insert authorisation f.submitted }
    match (PaiScheme.getFragmentKit authorisation.readCap).intoFragmentSet with
    | .complete pairs =>
        (markLast pairs).foldl (fun f x =>
          f.submitFragment authorisation (.pair x.1) .primary x.2) f
    | .selective primary secondary =>
        let f := (markLast primary).foldl (fun f x =>
          f.submitFragment authorisation (.triple x.1) .primary x.2) f
        (markLast secondary).foldl (fun f x =>
          f.submitFragment authorisation (.pair x.1) .secondary x.2) f

/-! ## Binds and replies -/

/-- What `check_for_intersection` does about one match of an own handle and a
handle of the peer. -/
def onMatch (f : PaiFinder) (handle : Nat) (m : Nat × Nat) (info : LocalFragmentInfo) :
    PaiFinder :=
  let f := { f with acted := f.acted ++ [m] }
  match info.onIntersection with
  | .bindReadCap => f.out (.newIntersection (info.toPaiIntersection m.1))
  | .requestSubspaceCap =>
      ({ f with
        requestedSubspaceCapHandles := insert m.1 f.requestedSubspaceCapHandles }).out
        (.requestSubspaceCapability handle)
  | .replyReadCap => f
  | .doNothing => f

/-- Our handle and that of the peer, when `handle` is the one in the scope. -/
def handlePair (scope : Scope) (handle otherHandle : Nat) : Nat × Nat :=
  match scope with
  | .ours => (handle, otherHandle)
  | .theirs => (otherHandle, handle)

/-- The loop of `PaiFinder::check_for_intersection`. -/
def checkAgainst (handle : Nat) (scope : Scope) (intersection : GroupState) :
    List (Nat × GroupState) → PaiFinder → Except Failure Unit × PaiFinder
  | [], f => (.ok (), f)
  | (otherHandle, otherIntersection) :: rest, f =>
      if !otherIntersection.completesWith intersection then
        checkAgainst handle scope intersection rest f
      else
        let m := handlePair scope handle otherHandle
        match f.fragmentsInfo m.1 with
        | none => (.error (.missingResource m.1), f)
        | some info => checkAgainst handle scope intersection rest (f.onMatch handle m info)

/-- `PaiFinder::check_for_intersection`. -/
def checkForIntersection (f : PaiFinder) (order : List Nat) (handle : Nat) (scope : Scope) :
    Except Failure Unit × PaiFinder :=
  let (storeToGetHandleFrom, storeToCheckAgainst) := match scope with
    | .ours => (f.ourIntersectionHandles, f.theirIntersectionHandles)
    | .theirs => (f.theirIntersectionHandles, f.ourIntersectionHandles)
  match storeToGetHandleFrom.tryGet handle with
  | none => (.error (.missingResource handle), f)
  | some intersection =>
      if !intersection.isComplete then (.ok (), f)
      else checkAgainst handle scope intersection (storeToCheckAgainst.iter order) f

/-- `PaiFinder::receive_bind`. -/
def receiveBind (f : PaiFinder) (order : List Nat) (groupMember : GroupBytes)
    (isSecondary : Bool) : Except Failure Unit × PaiFinder :=
  match PaiScheme.fromBytes groupMember with
  | none => (.error .invalidPsiGroup, f)
  | some unmixed =>
      let multiplied := PaiScheme.scalarMult unmixed f.scalar
      let groupState := GroupState.newComplete multiplied isSecondary
      let (handle, theirIntersectionHandles) := f.theirIntersectionHandles.bind groupState
      let f := ({ f with theirIntersectionHandles := theirIntersectionHandles }).out
        (.sendMessage (.replyFragment handle (PaiScheme.toBytes multiplied)))
      f.checkForIntersection order handle .theirs

/-- `PaiFinder::receive_reply`. -/
def receiveReply (f : PaiFinder) (order : List Nat) (handle : Nat) (groupMember : GroupBytes) :
    Except Failure Unit × PaiFinder :=
  match PaiScheme.fromBytes groupMember with
  | none => (.error .invalidPsiGroup, f)
  | some group =>
      match f.ourIntersectionHandles.tryGet handle with
      | none => (.error (.missingResource handle), f)
      | some ourState =>
          let nextState := GroupState.newComplete group ourState.isSecondary
          match f.ourIntersectionHandles.update handle nextState with
          | none => (.error (.missingResource handle), f)
          | some ourIntersectionHandles =>
              ({ f with ourIntersectionHandles := ourIntersectionHandles }).checkForIntersection
                order handle .ours

/-! ## Capabilities of the peer -/

/-- The loop of `PaiFinder::received_read_cap_for_intersection`. -/
def replyReadCaps (theirIntersection : GroupState) :
    List (Nat × GroupState) → PaiFinder → Except Failure Unit × PaiFinder
  | [], f => (.ok (), f)
  | (ourHandle, ourIntersection) :: rest, f =>
      if !ourIntersection.completesWith theirIntersection then
        replyReadCaps theirIntersection rest f
      else
        match f.fragmentsInfo ourHandle with
        | none => (.error (.missingResource ourHandle), f)
        | some info =>
            if info.onIntersection = .replyReadCap then
              replyReadCaps theirIntersection rest
                (f.out (.newIntersection (info.toPaiIntersection ourHandle)))
            else replyReadCaps theirIntersection rest f

/-- `PaiFinder::received_read_cap_for_intersection`. -/
def receivedReadCapForIntersection (f : PaiFinder) (order : List Nat) (theirHandle : Nat) :
    Except Failure Unit × PaiFinder :=
  match f.theirIntersectionHandles.tryGet theirHandle with
  | none => (.error (.missingResource theirHandle), f)
  | some theirIntersection =>
      replyReadCaps theirIntersection (f.ourIntersectionHandles.iter order) f

/-- `PaiFinder::received_verified_subspace_cap_reply`. -/
def receivedVerifiedSubspaceCapReply (f : PaiFinder) (handle : Nat) (namespaceId : NamespaceId) :
    Except Failure Unit × PaiFinder :=
  if handle ∉ f.requestedSubspaceCapHandles then
    (.error .subspaceCapRequestForInvalidHandle, f)
  else
    let f := { f with
      requestedSubspaceCapHandles := f.requestedSubspaceCapHandles.erase handle }
    match f.ourIntersectionHandles.tryGet handle with
    | none => (.error (.missingResource handle), f)
    | some _ =>
        match f.fragmentsInfo handle with
        | none => (.error (.missingResource handle), f)
        | some info =>
            if info.namespaceId ≠ namespaceId then (.error .subspaceCapRequestForWrongNamespace, f)
            else (.ok (), f.out (.newIntersection (info.toPaiIntersection handle)))

/-- The loop of `PaiFinder::received_subspace_cap_request`. -/
def replySubspaceCaps (handle : Nat) (result : GroupState) :
    List (Nat × GroupState) → PaiFinder → Except Failure Unit × PaiFinder
  | [], f => (.ok (), f)
  | (ourHandle, intersection) :: rest, f =>
      if !intersection.isComplete then replySubspaceCaps handle result rest f
      else if !PaiScheme.isGroupEqual result.group intersection.group then
        replySubspaceCaps handle result rest f
      else
        match f.fragmentsInfo ourHandle with
        | none => (.error (.missingResource ourHandle), f)
        | some info =>
            match info.authorisation.subspaceCap with
            | some cap =>
                replySubspaceCaps handle result rest (f.out (.signAndSendSubspaceCap handle cap))
            | none => replySubspaceCaps handle result rest f

/-- `PaiFinder::received_subspace_cap_request`. -/
def receivedSubspaceCapRequest (f : PaiFinder) (order : List Nat) (handle : Nat) :
    Except Failure Unit × PaiFinder :=
  match f.theirIntersectionHandles.tryGet handle with
  | none => (.error (.missingResource handle), f)
  | some result => replySubspaceCaps handle result (f.ourIntersectionHandles.iter order) f

/-! ## Inputs -/

/-- The order in which a hash map is iterated has every handle once. -/
def Covers (f : PaiFinder) (order : List Nat) : Prop :=
  order.Nodup ∧ (∀ h < f.ourIntersectionHandles.nextHandle, h ∈ order) ∧
    ∀ h < f.theirIntersectionHandles.nextHandle, h ∈ order

instance (f : PaiFinder) (order : List Nat) : Decidable (f.Covers order) :=
  inferInstanceAs (Decidable (_ ∧ _ ∧ _))

/-- The order in which the pending authorisations are drained has each of them
once. -/
def Drains (f : PaiFinder) (drained : List ReadAuthorisation) : Input → Prop
  | .established => drained.Nodup ∧ drained.toFinset = f.pending.getD ∅
  | _ => True

instance (f : PaiFinder) (drained : List ReadAuthorisation) :
    (input : Input) → Decidable (f.Drains drained input)
  | .established => inferInstanceAs (Decidable (_ ∧ _))
  | .submitAuthorisation _ => isTrue trivial
  | .receivedMessage _ => isTrue trivial
  | .receivedSubspaceCapRequest _ => isTrue trivial
  | .receivedVerifiedSubspaceCapReply _ _ => isTrue trivial
  | .receivedReadCapForIntersection _ => isTrue trivial

/-- `PaiFinder::input`, when hash maps are iterated in the order `order` and the
pending authorisations are drained in the order `drained`. -/
def onInput (f : PaiFinder) (order : List Nat) (drained : List ReadAuthorisation) :
    Input → Except Failure Unit × PaiFinder
  | .submitAuthorisation authorisation =>
      match f.pending with
      | some pending => (.ok (), { f with pending := some (insert authorisation pending) })
      | none => (.ok (), f.submitAuthorisation authorisation)
  | .established =>
      match f.pending with
      | some _ => (.ok (), drained.foldl submitAuthorisation { f with pending := none })
      | none => (.ok (), f)
  | .receivedMessage (.bindFragment groupMember isSecondary) =>
      f.receiveBind order groupMember isSecondary
  | .receivedMessage (.replyFragment handle groupMember) => f.receiveReply order handle groupMember
  | .receivedSubspaceCapRequest handle => f.receivedSubspaceCapRequest order handle
  | .receivedVerifiedSubspaceCapReply handle namespaceId =>
      f.receivedVerifiedSubspaceCapReply handle namespaceId
  | .receivedReadCapForIntersection handle => f.receivedReadCapForIntersection order handle

end PaiFinder

end IrohWillow
