import IrohWillow.Session.Resource
import IrohWillow.Proto.Meadowcap

/-!
# Sessions

The two roles of a session, its errors (`session/error.rs`, those that the
modelled code returns), and the intersections of areas of interest that a
session works on (`session/aoi_finder.rs`).
-/

namespace IrohWillow

/-- What is in a map after the value of one key was set. -/
theorem update_eq_some {K V : Type} [DecidableEq K] {m : K → Option V} {a b : K} {v w : V} :
    Function.update m a (some v) b = some w ↔ b = a ∧ w = v ∨ b ≠ a ∧ m b = some w := by
  by_cases hba : b = a
  · subst hba
    simp [eq_comm]
  · simp [hba]

/-- `Role`: Alfie initiated the session. -/
inductive Role where
  | alfie
  | betty
  deriving DecidableEq, Repr

/-- The role of the other peer. -/
def Role.other : Role → Role
  | .alfie => .betty
  | .betty => .alfie

@[simp] theorem Role.other_other (p : Role) : p.other.other = p := by cases p <;> rfl

theorem Role.other_ne (p : Role) : p.other ≠ p := by cases p <;> simp [Role.other]

theorem Role.eq_or_eq_other (p p' : Role) : p' = p ∨ p' = p.other := by
  cases p <;> cases p' <;> simp [Role.other]

/-- What holds of a peer and of the other one holds of both. -/
theorem Role.forall_of {P : Role → Prop} (p : Role) (hself : P p) (hother : P p.other) :
    ∀ p', P p' := by
  intro p'
  rcases Role.eq_or_eq_other p p' with rfl | rfl
  · exact hself
  · exact hother

/-- `SessionId`. -/
abbrev SessionId := Nat

/-- `AreaOfInterestHandle`. -/
abbrev AreaOfInterestHandle := Nat

/-- `Error`. -/
inductive Error where
  | store
  | payloadDigestMismatch
  | payloadSizeMismatch
  | keyStore
  | invalidCapability
  | invalidSignature
  | invalidMessageInCurrentState
  | unauthorisedArea
  | unauthorisedWrite
  | brokenCommittement
  | invalidState (message : String)
  | noKnownInterestsForCapability
  deriving DecidableEq, Repr

/-- `AoiIntersection`: two areas of interest that overlap. -/
structure AoiIntersection where
  ourHandle : AreaOfInterestHandle
  theirHandle : AreaOfInterestHandle
  intersection : AreaOfInterest
  namespaceId : NamespaceId
  deriving DecidableEq

namespace AoiIntersection

/-- `AoiIntersection::id`. -/
def id (i : AoiIntersection) : AreaOfInterestHandle × AreaOfInterestHandle :=
  (i.ourHandle, i.theirHandle)

/-- The handles as the peer sees them. -/
def peerId (i : AoiIntersection) : AreaOfInterestHandle × AreaOfInterestHandle :=
  (i.theirHandle, i.ourHandle)

/-- The intersection as the other peer sees it. -/
def mirror (i : AoiIntersection) : AoiIntersection :=
  { i with ourHandle := i.theirHandle, theirHandle := i.ourHandle }

/-- `AoiIntersection::area`. -/
def area (i : AoiIntersection) : Area := i.intersection.area

end AoiIntersection

end IrohWillow
