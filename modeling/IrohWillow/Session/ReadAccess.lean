import IrohWillow.Lib.Transition
import IrohWillow.Session.AoiFinder

/-!
# Read access control

How an area of interest of the peer comes to the reconciler: the control loop
takes the revealed nonce, `caps_recv_loop` binds capabilities, `aoi_recv_loop`
checks each area of interest against the capability it names, and the
intersection finder puts out what it has in common with ours (`session/run.rs`).
The messages are those of an arbitrary peer; an error of any loop ends the
session.

The area that reaches the reconciler is always covered by a capability of the
peer whose receiver signed the challenge. Nothing checks that the capability
grants *read* access: `read_access` has the condition under which it does.
-/

namespace IrohWillow.ReadAccess

open IntersectionFinder

/-- The loops of a session that have to do with read access. -/
structure State where
  ourRole : Role
  /-- The intersection finder, with the capabilities of the session. -/
  finder : IntersectionFinder
  /-- `intersection_inbox` -/
  inbox : List Input := []
  /-- A loop has returned an error. -/
  failed : Bool := false

/-- What may happen. -/
inductive Action where
  /-- The peer sends `CommitmentReveal`. -/
  | commitmentReveal (nonce : AccessChallenge)
  /-- The peer sends `SetupBindReadCapability`. -/
  | setupBindReadCapability (capability : ReadCapability) (signature : UserSignature)
  /-- The peer sends `SetupBindAreaOfInterest`. -/
  | setupBindAreaOfInterest (areaOfInterest : AreaOfInterest) (authorisation : Nat)
  /-- Interests are submitted locally. -/
  | addInterests (interests : List (ReadAuthorisation × List AreaOfInterest))
  /-- The private area intersection has found something in common. -/
  | paiIntersection (authorisation : ReadAuthorisation) (handle : Nat)
  /-- The intersection finder takes the next input. -/
  | takeInput
  deriving DecidableEq

/-- The intersections handed to the reconciler. -/
def State.handed (s : State) : List AoiIntersection :=
  s.finder.outputs.filterMap fun
    | .aoiIntersection i => some i
    | _ => none

/-! ## Which capabilities cover an area -/

/-- The peer has bound a capability with read access for an area in a
namespace, which satisfies `Q`. -/
def Granted (Q : ReadCapability → Prop) (theirs : ResourceMap ReadCapability) (ns : NamespaceId)
    (area : Area) : Prop :=
  ∃ h cap, theirs.tryGet h = some cap ∧ cap.accessMode = .read ∧ Q cap ∧
    cap.grantedNamespace = ns ∧ cap.grantedArea.IncludesArea area

theorem granted_downward (Q : ReadCapability → Prop) (theirs : ResourceMap ReadCapability) :
    Downward (Granted Q theirs) := by
  rintro ns a b ⟨h, cap, hget, hread, hQ, hns, harea⟩ hab
  exact ⟨h, cap, hget, hread, hQ, hns, harea.trans hab⟩

/-- The area of interest names a capability with read access. -/
def NamesReadCapability (s : State) : Action → Prop
  | .setupBindAreaOfInterest _ authorisation =>
      match s.finder.caps.theirs.tryGet authorisation with
      | some cap => cap.accessMode = .read
      | none => True
  | _ => True

instance (s : State) : (a : Action) → Decidable (NamesReadCapability s a)
  | .setupBindAreaOfInterest _ authorisation =>
      match h : s.finder.caps.theirs.tryGet authorisation with
      | some cap => decidable_of_iff (cap.accessMode = .read) (by simp [NamesReadCapability, h])
      | none => isTrue (by simp [NamesReadCapability, h])
  | .commitmentReveal _ => isTrue trivial
  | .setupBindReadCapability _ _ => isTrue trivial
  | .addInterests _ => isTrue trivial
  | .paiIntersection _ _ => isTrue trivial
  | .takeInput => isTrue trivial

/-! ## The loops -/

/-- Keep the capabilities, or fail. -/
def State.withCaps (s : State) : Except Error Capabilities → State
  | .ok caps => { s with finder := { s.finder with caps := caps } }
  | .error _ => { s with failed := true }

/-- Send into `intersection_inbox`. -/
def State.push (s : State) (input : Input) : State := { s with inbox := s.inbox ++ [input] }

/-- One step; `none` when the action is not possible. -/
def step [Meadowcap] [ChallengeHash] [WillowDataModel] (s : State) (a : Action) : Option State :=
  if s.failed then none
  else
    match a with
    | .commitmentReveal nonce =>
        some (s.withCaps (s.finder.caps.receivedCommitmentReveal s.ourRole nonce))
    | .setupBindReadCapability capability signature =>
        some (s.withCaps (s.finder.caps.validateAndBindTheirs capability signature))
    | .setupBindAreaOfInterest areaOfInterest authorisation =>
        -- `get_theirs_eventually` waits until the handle is bound
        match s.finder.caps.theirs.tryGet authorisation with
        | none => none
        | some cap =>
            if cap.grantedArea.IncludesArea areaOfInterest.area then
              some (s.push (.receivedValidatedAoi cap.grantedNamespace areaOfInterest))
            else some { s with failed := true }
    | .addInterests interests => some (s.push (.addInterests interests))
    | .paiIntersection authorisation handle => some (s.push (.paiIntersection authorisation handle))
    | .takeInput =>
        match s.inbox with
        | [] => none
        | input :: rest =>
            match s.finder.onInput input with
            | .ok finder => some { s with finder := finder, inbox := rest }
            | .error _ => some { s with failed := true }

/-- A new session. -/
def start (ourRole : Role) (ourNonce : AccessChallenge) (receivedCommitment : Bytes 32) : State :=
  { ourRole := ourRole, finder := { caps := .new ourNonce receivedCommitment } }

/-! ## Whole runs -/

section Runs

variable (Signed : UserId → AccessChallenge → Prop)

/-- The receiver of the capability signed the challenge of the session. -/
def SignedFor (challenge : ChallengeState) (cap : ReadCapability) : Prop :=
  ∃ ours theirs, challenge = .revealed ours theirs ∧ Signed cap.receiver theirs

/-- **The invariant.** All capabilities of the peer are signed for, and all its
areas of interest, from the inbox to the output, are covered by one that grants
read access. -/
structure Inv (s : State) : Prop where
  dense : s.finder.caps.theirs.Dense
  signed : ∀ h cap, s.finder.caps.theirs.tryGet h = some cap →
    SignedFor Signed s.finder.caps.challenge cap
  validated : ∀ ns aoi, .receivedValidatedAoi ns aoi ∈ s.inbox →
    Granted (SignedFor Signed s.finder.caps.challenge) s.finder.caps.theirs ns aoi.area
  confined : s.finder.Confined
    (Granted (SignedFor Signed s.finder.caps.challenge) s.finder.caps.theirs)

variable {Signed}

theorem Inv.start (role : Role) (nonce : AccessChallenge) (commitment : Bytes 32) :
    Inv Signed (start role nonce commitment) where
  dense := ResourceMap.dense_empty
  signed h cap hget := by simp [ReadAccess.start, Capabilities.new, ResourceMap.tryGet] at hget
  validated _ _ hmem := by simp [ReadAccess.start] at hmem
  confined := ⟨ResourceMap.dense_empty, fun h info hget => by
    simp [ReadAccess.start, ResourceMap.tryGet] at hget, by simp [ReadAccess.start]⟩

/-- A message that only changes the inbox. -/
theorem Inv.push {s : State} (h : Inv Signed s) {input : Input}
    (hinput : ∀ ns aoi, input = .receivedValidatedAoi ns aoi →
      Granted (SignedFor Signed s.finder.caps.challenge) s.finder.caps.theirs ns aoi.area) :
    Inv Signed (s.push input) where
  dense := h.dense
  signed := h.signed
  validated ns aoi hmem := by
    rcases List.mem_append.mp hmem with hmem | hmem
    · exact h.validated ns aoi hmem
    · exact hinput ns aoi (List.mem_singleton.mp hmem).symm
  confined := h.confined

theorem Inv.fail {s : State} (h : Inv Signed s) : Inv Signed { s with failed := true } :=
  ⟨h.dense, h.signed, h.validated, h.confined⟩

/-- The reveal comes before the first capability. -/
theorem Inv.reveal [ChallengeHash] {s : State} (h : Inv Signed s) {nonce : AccessChallenge}
    {caps : Capabilities}
    (hok : s.finder.caps.receivedCommitmentReveal s.ourRole nonce = .ok caps) :
    Inv Signed (s.withCaps (.ok caps)) := by
  obtain ⟨⟨n, commitment, hcommitted⟩, htheirs⟩ := Capabilities.receivedCommitmentReveal_ok hok
  -- no capability is bound yet: it would have been signed for a revealed challenge
  have hnone : ∀ k cap, caps.theirs.tryGet k ≠ some cap := by
    intro k cap hget
    obtain ⟨ours, theirs, hrevealed, -⟩ := h.signed k cap (htheirs ▸ hget)
    rw [hcommitted] at hrevealed
    cases hrevealed
  have hgranted : ∀ ns area, Granted (SignedFor Signed s.finder.caps.challenge)
      s.finder.caps.theirs ns area →
      Granted (SignedFor Signed caps.challenge) caps.theirs ns area := by
    rintro ns area ⟨k, cap, hget, -⟩
    exact absurd (htheirs ▸ hget) (hnone k cap)
  refine ⟨?_, fun k cap hget => absurd hget (hnone k cap),
    fun ns aoi hmem => hgranted _ _ (h.validated ns aoi hmem), ?_⟩
  · show caps.theirs.Dense
    rw [htheirs]
    exact h.dense
  · exact (h.confined.mono hgranted).congr rfl rfl

/-- A capability is bound when its receiver has signed the challenge. -/
theorem Inv.bindCapability [Meadowcap] {s : State} (h : Inv Signed s)
    (hsound : ∀ user challenge signature, Meadowcap.verify user challenge signature = true →
      Signed user challenge)
    {capability : ReadCapability} {signature : UserSignature} {caps : Capabilities}
    (hok : s.finder.caps.validateAndBindTheirs capability signature = .ok caps) :
    Inv Signed (s.withCaps (.ok caps)) := by
  obtain ⟨ours, theirs, hrevealed, hverify, rfl⟩ := Capabilities.validateAndBindTheirs_ok hok
  have hgranted : ∀ ns area, Granted (SignedFor Signed s.finder.caps.challenge)
      s.finder.caps.theirs ns area → Granted (SignedFor Signed s.finder.caps.challenge)
      (s.finder.caps.theirs.bind capability).2 ns area := by
    rintro ns area ⟨k, cap, hget, hrest⟩
    exact ⟨k, cap, h.dense.tryGet_bind hget, hrest⟩
  refine ⟨h.dense.bind, fun k cap hget => ?_,
    fun ns aoi hmem => hgranted _ _ (h.validated ns aoi hmem),
    (h.confined.mono hgranted).congr rfl rfl⟩
  by_cases heq : k = s.finder.caps.theirs.nextHandle
  · subst heq
    have hcap : some capability = some cap := ResourceMap.tryGet_bind_self.symm.trans hget
    obtain rfl := Option.some.inj hcap
    exact ⟨ours, theirs, hrevealed, hsound _ _ _ hverify⟩
  · exact h.signed k cap ((ResourceMap.tryGet_bind_of_ne heq).symm.trans hget)

/-- The finder takes an input. -/
theorem Inv.takeInput [WillowDataModel] {s : State} (h : Inv Signed s)
    (hspec : IntersectionSpec) {input : Input} {rest : List Input}
    (hinbox : s.inbox = input :: rest) {finder : IntersectionFinder}
    (hok : s.finder.onInput input = .ok finder) :
    Inv Signed { s with finder := finder, inbox := rest } := by
  obtain ⟨hconf, htheirs, hchallenge⟩ := h.confined.onInput hspec (granted_downward _ _)
    (fun ns aoi heq => h.validated ns aoi (by rw [hinbox, heq]; exact List.mem_cons_self)) hok
  refine ⟨?_, ?_, fun ns aoi hmem => ?_, ?_⟩
  · show finder.caps.theirs.Dense
    rw [htheirs]
    exact h.dense
  · show ∀ k cap, finder.caps.theirs.tryGet k = some cap →
      SignedFor Signed finder.caps.challenge cap
    rw [htheirs, hchallenge]
    exact h.signed
  · show Granted (SignedFor Signed finder.caps.challenge) finder.caps.theirs ns aoi.area
    rw [htheirs, hchallenge]
    exact h.validated ns aoi (by rw [hinbox]; exact List.mem_cons_of_mem _ hmem)
  · show finder.Confined (Granted (SignedFor Signed finder.caps.challenge) finder.caps.theirs)
    rw [htheirs, hchallenge]
    exact hconf

variable [Meadowcap] [ChallengeHash] [WillowDataModel]

/-- **One step.** -/
theorem Inv.step {s s' : State} {a : Action} (h : Inv Signed s)
    (hsound : ∀ user challenge signature, Meadowcap.verify user challenge signature = true →
      Signed user challenge)
    (hspec : IntersectionSpec) (hread : NamesReadCapability s a)
    (hstep : step s a = some s') : Inv Signed s' := by
  unfold ReadAccess.step at hstep
  split at hstep
  · cases hstep
  · cases a with
    | commitmentReveal nonce =>
        obtain rfl := Option.some.inj hstep
        cases hok : s.finder.caps.receivedCommitmentReveal s.ourRole nonce with
        | ok caps => exact h.reveal hok
        | error e => exact h.fail
    | setupBindReadCapability capability signature =>
        obtain rfl := Option.some.inj hstep
        cases hok : s.finder.caps.validateAndBindTheirs capability signature with
        | ok caps => exact h.bindCapability hsound hok
        | error e => exact h.fail
    | setupBindAreaOfInterest areaOfInterest authorisation =>
        simp only [NamesReadCapability] at hread
        dsimp only at hstep
        split at hstep
        · cases hstep
        · rename_i cap hget
          rw [hget] at hread
          split at hstep
          · rename_i harea
            obtain rfl := Option.some.inj hstep
            refine h.push fun ns aoi heq => ?_
            obtain ⟨rfl, rfl⟩ := Input.receivedValidatedAoi.inj heq
            exact ⟨authorisation, cap, hget, hread, h.signed _ _ hget, rfl, harea⟩
          · obtain rfl := Option.some.inj hstep
            exact h.fail
    | addInterests interests =>
        obtain rfl := Option.some.inj hstep
        exact h.push (by simp)
    | paiIntersection authorisation handle =>
        obtain rfl := Option.some.inj hstep
        exact h.push (by simp)
    | takeInput =>
        dsimp only at hstep
        split at hstep
        · cases hstep
        · rename_i input rest hinbox
          split at hstep
          · rename_i finder hok
            obtain rfl := Option.some.inj hstep
            exact h.takeInput hspec hinbox hok
          · obtain rfl := Option.some.inj hstep
            exact h.fail

/-- **Read access control.** In every run in which each area of interest of
the peer names a capability that grants read access, every intersection handed
to the reconciler lies in the area of such a capability, in its namespace, and
the receiver of the capability signed the challenge of the session. -/
theorem read_access (Signed : UserId → AccessChallenge → Prop)
    (hsound : ∀ user challenge signature, Meadowcap.verify user challenge signature = true →
      Signed user challenge)
    (hspec : IntersectionSpec) (role : Role) (nonce : AccessChallenge) (commitment : Bytes 32)
    {s : State}
    (hrun : Transition.Reachable step NamesReadCapability (start role nonce commitment) s) :
    ∀ i ∈ s.handed, Granted (SignedFor Signed s.finder.caps.challenge) s.finder.caps.theirs
      i.namespaceId i.area := by
  have hinv : Inv Signed s := hrun.invariant (Inv.start role nonce commitment)
    fun _ _ _ hs ha hstep => hs.step hsound hspec ha hstep
  intro i hi
  obtain ⟨output, hout, hsome⟩ := List.mem_filterMap.mp hi
  cases output with
  | aoiIntersection j =>
      obtain rfl := Option.some.inj hsome
      exact hinv.confined.found _ hout
  | sendMessage _ _ => cases hsome
  | submitAuthorisation _ => cases hsome
  | signAndSendCapability _ _ => cases hsome

end Runs

/-! ### Two runs -/

section Samples

open IrohWillow.Sample

/-- The nonce is its own commitment. -/
@[reducible] def Sample.plainHash : ChallengeHash := ⟨id⟩

/-- Areas that contain one another intersect in the smaller one. -/
@[reducible] def Sample.nestedAreas : WillowDataModel where
  greaterButNotPrefixed _ := none
  intersection a b :=
    if a.area.IncludesArea b.area then some b
    else if b.area.IncludesArea a.area then some a
    else none

attribute [local instance] acceptingSignatures Sample.plainHash Sample.nestedAreas

theorem nestedAreas_intersectionSpec : IntersectionSpec := by
  intro a b c h
  simp only [WillowDataModel.intersection] at h
  split at h
  · rename_i hab
    obtain rfl := Option.some.inj h
    exact ⟨hab, .refl _⟩
  · split at h
    · rename_i hba
      obtain rfl := Option.some.inj h
      exact ⟨.refl _, hba⟩
    · cases h

/-- A capability for the whole namespace. -/
def capabilityFor (accessMode : AccessMode) : McCapability :=
  { writeCapability with accessMode := accessMode }

/-- The peer presents a capability, an area of interest for it, and we have an
interest in the namespace. -/
def presents (accessMode : AccessMode) : List Action :=
  let ours : ReadAuthorisation := ⟨capabilityFor .read, none⟩
  let aoi : AreaOfInterest := ⟨.full, 0, 0⟩
  [.commitmentReveal (.ofByte 7), .setupBindReadCapability (capabilityFor accessMode) (.ofByte 0),
    .setupBindAreaOfInterest aoi 0, .addInterests [(ours, [aoi])], .paiIntersection ours 0,
    .takeInput, .takeInput, .takeInput]

/-- The peer presents a *write* capability, and the reconciler is handed the
intersection with it: no capability of the peer grants read access. -/
theorem write_capability_grants_read :
    ¬ ∀ (_ : Meadowcap) (_ : ChallengeHash) (_ : WillowDataModel)
      (Signed : UserId → AccessChallenge → Prop),
      (∀ user challenge signature, Meadowcap.verify user challenge signature = true →
        Signed user challenge) → IntersectionSpec →
      ∀ (role : Role) (nonce : AccessChallenge) (commitment : Bytes 32) (s : State),
      Transition.Reachable step (fun _ _ => True) (start role nonce commitment) s →
      ∀ i ∈ s.handed, Granted (SignedFor Signed s.finder.caps.challenge) s.finder.caps.theirs
        i.namespaceId i.area := by
  intro h
  have hrun : ((Transition.run step (start .alfie (.ofByte 3) (.ofByte 7)) (presents .write)).map
      fun s => (s.handed.length, s.finder.caps.theirs.map.entries.map (·.2.accessMode))) =
      some (1, [.write]) := by decide
  obtain ⟨s, hs, heq⟩ := Option.map_eq_some_iff.mp hrun
  obtain ⟨hlen, hmodes⟩ := Prod.mk.inj heq
  obtain ⟨i, hi⟩ := List.exists_mem_of_length_pos (by rw [hlen]; decide : 0 < s.handed.length)
  obtain ⟨k, cap, hget, hread, -⟩ := h acceptingSignatures Sample.plainHash Sample.nestedAreas
    (fun user challenge => ∃ signature, Meadowcap.verify user challenge signature = true)
    (fun _ _ signature hv => ⟨signature, hv⟩) nestedAreas_intersectionSpec .alfie (.ofByte 3)
    (.ofByte 7) s (.of_run hs (by decide)) i hi
  have hmem : cap.accessMode ∈ s.finder.caps.theirs.map.entries.map (·.2.accessMode) :=
    List.mem_map.mpr ⟨⟨k, cap⟩, AList.mem_lookup_iff.mp hget, rfl⟩
  rw [hmodes, List.mem_singleton, hread] at hmem
  cases hmem

/-- With a read capability the handed intersection is granted. -/
theorem read_access_read_capability :
    ∃ s, Transition.Reachable step NamesReadCapability (start .alfie (.ofByte 3) (.ofByte 7)) s ∧
      ∃ i ∈ s.handed, Granted (SignedFor
        (fun user challenge => ∃ signature, Meadowcap.verify user challenge signature = true)
        s.finder.caps.challenge) s.finder.caps.theirs i.namespaceId i.area := by
  have hrun : ((Transition.run step (start .alfie (.ofByte 3) (.ofByte 7)) (presents .read)).map
      fun s => s.handed.length) = some 1 := by decide
  obtain ⟨s, hs, hlen⟩ := Option.map_eq_some_iff.mp hrun
  obtain ⟨i, hi⟩ := List.exists_mem_of_length_pos (by rw [hlen]; decide : 0 < s.handed.length)
  have hreach : Transition.Reachable step NamesReadCapability
      (start .alfie (.ofByte 3) (.ofByte 7)) s := .of_run hs (by decide)
  exact ⟨s, hreach, i, hi, read_access _ (fun _ _ signature hv => ⟨signature, hv⟩)
    nestedAreas_intersectionSpec .alfie (.ofByte 3) (.ofByte 7) hreach i hi⟩

end Samples

end IrohWillow.ReadAccess
