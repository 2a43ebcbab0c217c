import IrohWillow.Session.PaiSingle

/-!
# Agreement on primary fragments

Each of two sessions submits one authorisation, both for any subspace or both for the
same one, and one of the granted paths is a prefix of the other. Both `PaiFinder`s
should find the authorisation: the one with the shorter path acts on the match of the
fragments itself and sends its read capability, the other one acts on the read
capability. It looks at the capability once, when it comes, and passes over fragments
that were not replied to yet. Capabilities and replies travel on different channels.
-/

namespace IrohWillow

section Model

variable [PaiScheme]

namespace PaiSession

open PaiFinder (fragmentsOf)

/-! ## Primary fragments -/

/-- The granted path. -/
def grantedPath (auth : Role → ReadAuthorisation) (p : Role) : Path :=
  (auth p).readCap.grantedArea.path

/-- The primary fragment for a prefix of the path. -/
theorem exists_primary (hlaw : PaiScheme.Lawful) (a : ReadAuthorisation) {q : Path}
    (hq : q.IsPrefixOf a.readCap.grantedArea.path) : ∃ x ∈ fragmentsOf a, x.kind = .primary ∧
      x.fragment.intoParts = (a.namespaceId, a.readCap.grantedArea.subspace, q) ∧
      (x.isMostSpecific = true ↔ q = a.readCap.grantedArea.path) := by
  have hfragment : ∃ f : Fragment,
      f.intoParts = (a.namespaceId, a.readCap.grantedArea.subspace, q) := by
    cases a.readCap.grantedArea.subspace with
    | any => exact ⟨.pair (a.namespaceId, q), rfl⟩
    | id subspaceId => exact ⟨.triple (a.namespaceId, subspaceId, q), rfl⟩
  obtain ⟨f, hf⟩ := hfragment
  have hspecific : decide (q = a.readCap.grantedArea.path) = true ↔
      q = a.readCap.grantedArea.path := decide_eq_true_iff
  refine ⟨⟨a, f, .primary, decide (q = a.readCap.grantedArea.path)⟩, ?_, rfl, hf, hspecific⟩
  exact (PaiFinder.mem_fragmentsOf hlaw).mpr ⟨rfl, q, hq, hspecific, .inl ⟨rfl, hf⟩⟩

omit [PaiScheme] in
/-- What a primary fragment does. -/
theorem onIntersection_primary {x : LocalFragment} (hkind : x.kind = .primary) :
    x.info.onIntersection = if x.isMostSpecific then .bindReadCap else .replyReadCap := by
  rw [PaiExchange.onIntersection_info, hkind]
  cases x.isMostSpecific <;> rfl

/-- Both authorisations are for the same namespace and subspace. -/
structure SameSubspace (auth : Role → ReadAuthorisation) : Prop where
  namespaceId : ∀ p, (auth p.other).namespaceId = (auth p).namespaceId
  subspace : ∀ p, (auth p.other).readCap.grantedArea.subspace =
    (auth p).readCap.grantedArea.subspace

/-- Primary fragments meet primary ones only. -/
theorem SameSubspace.primary_of_meets (hlaw : PaiScheme.Lawful)
    {auth : Role → ReadAuthorisation} (h : SameSubspace auth) {p : Role} {x y : LocalFragment}
    (hx : x ∈ fragmentsOf (auth p)) (hy : y ∈ fragmentsOf (auth p.other)) (hmeets : x.Meets y) :
    x.kind = .primary ∧ y.kind = .primary := by
  obtain ⟨hfragment, hnot⟩ := hmeets
  obtain ⟨-, q, -, -, hxparts⟩ := (PaiFinder.mem_fragmentsOf hlaw).mp hx
  obtain ⟨-, r, -, -, hyparts⟩ := (PaiFinder.mem_fragmentsOf hlaw).mp hy
  rw [hfragment] at hxparts
  rcases hxparts with ⟨hxk, hx'⟩ | ⟨hxk, hne, hx'⟩ <;>
    rcases hyparts with ⟨hyk, hy'⟩ | ⟨hyk, hne', hy'⟩
  · exact ⟨hxk, hyk⟩
  · rw [hy'] at hx'
    have hsubspace := (Prod.mk.inj (Prod.mk.inj hx').2).1
    exact absurd ((h.subspace p).trans hsubspace.symm) hne'
  · rw [hy'] at hx'
    have hsubspace := (Prod.mk.inj (Prod.mk.inj hx').2).1
    exact absurd ((h.subspace p).symm.trans hsubspace) hne
  · exact absurd ⟨hxk, hyk⟩ hnot

variable [Meadowcap] [ChallengeHash] {auth : Role → ReadAuthorisation}
  {nonce : Role → AccessChallenge} {s : PaiSession} {p : Role}

/-- No subspace capability is asked for. -/
theorem Singles.not_meets_of_requests (hlaw : PaiScheme.Lawful) (h : Singles auth nonce s)
    (hsame : SameSubspace auth) {x y : LocalFragment}
    (hx : x ∈ (s.exchange.finder p).fragments) (hy : y ∈ (s.exchange.finder p.other).fragments)
    (hrequests : x.Requests) : ¬ x.Meets y := by
  intro hmeets
  obtain ⟨hk, -⟩ := hsame.primary_of_meets hlaw (h.mem_fragments hx).1 (h.mem_fragments hy).1 hmeets
  rw [hrequests.1] at hk
  cases hk

theorem Singles.namesOwnHandle (hlaw : PaiScheme.Lawful) (h : Singles auth nonce s)
    (hsame : SameSubspace auth) (a : Action) : NamesOwnHandle s a := by
  cases a with
  | addInterests p interests => trivial
  | deliverControl p => trivial
  | deliverCapability p => trivial
  | takeIntersection p => trivial
  | deliverIntersection p order =>
      simp only [NamesOwnHandle]
      split
      · intro y hy o _ x hx hrequests hmeets
        exact absurd hmeets (h.not_meets_of_requests hlaw hsame (List.mem_of_getElem? hx)
          (List.mem_of_getElem? hy) hrequests)
      · intro x hx hrequests t _ t' _ y hy _ _ hmeets _
        have hy := (PaiExchange.known_isPrefix s.exchange p).subset (List.mem_of_getElem? hy)
        exact absurd hmeets (h.not_meets_of_requests hlaw hsame (List.mem_of_getElem? hx) hy
          hrequests)
      · trivial
  | takePai p order drained =>
      simp only [NamesOwnHandle]
      split
      · rename_i t rest hinbox
        exfalso
        have hopen : t ∈ s.openHandles p.other := by
          refine List.mem_append_left _ (List.mem_append_right _ ?_)
          rw [Role.other_other, hinbox]
          exact List.mem_cons_self
        have hasked := (h.accounted p.other).requested t hopen
        obtain ⟨hrequests, t', hacted⟩ := h.causal.exchange.requested p.other t hasked
        obtain ⟨x, y, hx, hy, hmeets⟩ := h.causal.exchange.meetAt_of_acted hacted
        exact h.not_meets_of_requests hlaw hsame (List.mem_of_getElem? hx) (List.mem_of_getElem? hy)
          ((requests_iff hx).mp hrequests) hmeets
      · trivial

/-! ## Agreement -/

/-- The side with the shorter path acts on the match. -/
theorem Singles.found_of_shorter (hlaw : PaiScheme.Lawful) (h : Singles auth nonce s)
    (hsame : SameSubspace auth) (hquiet : s.Quiet)
    (hsubmitted : ∀ p, auth p ∈ (s.exchange.finder p).submitted)
    (hle : (grantedPath auth p).IsPrefixOf (grantedPath auth p.other)) : Found auth s p := by
  obtain ⟨x, hx, hxk, hxparts, hxspecific⟩ :=
    exists_primary hlaw (auth p) (List.prefix_refl (grantedPath auth p).components)
  obtain ⟨y, hy, hyk, hyparts, -⟩ := exists_primary hlaw (auth p.other) hle
  rw [hsame.namespaceId, hsame.subspace] at hyparts
  have hmeets : x.Meets y := by
    refine ⟨Fragment.intoParts_injective (hxparts.trans hyparts.symm), fun hboth => ?_⟩
    rw [hxk] at hboth
    cases hboth.1
  refine h.found_of_meets hquiet hsubmitted hx hy hmeets ?_
  rw [onIntersection_primary hxk, if_pos (hxspecific.mpr rfl)]

/-- The side with the longer path acts on the read capability. -/
theorem Singles.found_of_longer (hlaw : PaiScheme.Lawful) (h : Singles auth nonce s)
    (hsound : s.Sound) (hsame : SameSubspace auth) (hquiet : s.Quiet)
    (hsubmitted : ∀ p, auth p ∈ (s.exchange.finder p).submitted)
    (hle : (grantedPath auth p.other).IsPrefixOf (grantedPath auth p))
    (hne : grantedPath auth p.other ≠ grantedPath auth p) : Found auth s p := by
  have hle' : (grantedPath auth p.other).IsPrefixOf (grantedPath auth p.other.other) := by
    rwa [Role.other_other]
  have hfound := h.found_of_shorter hlaw hsame hquiet hsubmitted hle'
  obtain ⟨m, hm, i, hi, hhandle⟩ := h.sent_of_quiet hquiet hfound
  -- the intersection is one for the path of the other session
  obtain ⟨y, t, z, hy, -, hz, hmeets, hspecific⟩ := hsound p.other i hi
  rw [Role.other_other] at hz
  have hyf := (h.mem_fragments (List.mem_of_getElem? hy)).1
  have hzf := (h.mem_fragments (List.mem_of_getElem? hz)).1
  obtain ⟨hzk, hyk⟩ := hsame.primary_of_meets hlaw hzf hyf hmeets.symm
  obtain ⟨-, r, hr, hyr, hyparts⟩ := (PaiFinder.mem_fragmentsOf hlaw).mp hyf
  obtain ⟨-, q, hq, hzq, hzparts⟩ := (PaiFinder.mem_fragmentsOf hlaw).mp hzf
  have hyparts := (hyparts.resolve_right (by simp [hyk])).2
  have hzparts := (hzparts.resolve_right (by simp [hzk])).2
  have hpaths : r = q := by
    rw [hmeets.1, hzparts] at hyparts
    exact (Prod.mk.inj (Prod.mk.inj hyparts).2).2.symm
  have hpath : r = grantedPath auth p.other := by
    rcases hspecific with hs | hs
    · exact hyr.mp hs
    · exfalso
      have hq' : q = grantedPath auth p := hzq.mp hs
      refine hne (Path.components_injective (hle.eq_of_length_le ?_))
      rw [← hq', ← hpaths]
      exact hr.length_le
  -- our fragment for it is not the most specific one
  obtain ⟨x, hx, hxk, hxparts, hxspecific⟩ := exists_primary hlaw (auth p) hle
  have hmeets' : x.Meets y := by
    refine ⟨Fragment.intoParts_injective ?_, fun hboth => ?_⟩
    · rw [hxparts, hyparts, hsame.namespaceId, hsame.subspace, hpath]
    · rw [hxk] at hboth
      cases hboth.1
  refine h.answered_of_quiet hquiet hm y (hhandle ▸ hy) x hx hmeets' ?_
  have hless : x.isMostSpecific ≠ true := fun hs => hne (hxspecific.mp hs)
  rw [onIntersection_primary hxk, if_neg hless]

variable [WillowDataModel]

/-- Runs with authorisations for the same subspace ask for no subspace capability. -/
theorem orderly_of_timely (hlaw : PaiScheme.Lawful) {scalar : Role → PsiScalar}
    {secrets : Role → SecretStorage} (hhonest : ∀ p, Honest (secrets p) (auth p))
    (hsame : SameSubspace auth)
    (hs : Transition.Reachable PaiSession.step (fun s a => SubmitsOnly auth s a ∧ Timely s a)
      (start scalar nonce secrets) s) :
    Transition.Reachable PaiSession.step (Orderly auth) (start scalar nonce secrets) s := by
  refine hs.invariant .refl fun s a s' hreach hallowed hstep => ?_
  have h := singles_of_reachable hlaw hhonest hreach
  exact hreach.tail ⟨hallowed.1, hallowed.2, h.namesOwnHandle hlaw hsame a⟩ hstep

/-- **Agreement.** Two sessions with one authorisation each, for the same subspace and
with one path a prefix of the other, have both found it when nothing is on its way, in
every run in which read capabilities are taken after the replies that they are about. -/
theorem primary_fragments_agree (hlaw : PaiScheme.Lawful) (scalar : Role → PsiScalar)
    (nonce : Role → AccessChallenge) (secrets : Role → SecretStorage)
    (auth : Role → ReadAuthorisation) (hhonest : ∀ p, Honest (secrets p) (auth p))
    (hsame : SameSubspace auth)
    (hpaths : (grantedPath auth .alfie).IsPrefixOf (grantedPath auth .betty) ∨
      (grantedPath auth .betty).IsPrefixOf (grantedPath auth .alfie)) (s : PaiSession)
    (hs : Transition.Reachable PaiSession.step (fun s a => SubmitsOnly auth s a ∧ Timely s a)
      (start scalar nonce secrets) s) (hquiet : s.Quiet)
    (hknown : ∀ p, (s.peer p).intersections.interests (auth p) ≠ none) (p : Role) :
    Found auth s p := by
  obtain ⟨h, hsound⟩ := sound_of_orderly hlaw hhonest (orderly_of_timely hlaw hhonest hsame hs)
  have hsubmitted : ∀ p, auth p ∈ (s.exchange.finder p).submitted :=
    fun p => h.submitted_of_quiet hquiet (hknown p)
  have hcases : (grantedPath auth p).IsPrefixOf (grantedPath auth p.other) ∨
      (grantedPath auth p.other).IsPrefixOf (grantedPath auth p) := by
    cases p with
    | alfie => exact hpaths
    | betty => exact hpaths.symm
  rcases hcases with hle | hle
  · exact h.found_of_shorter hlaw hsame hquiet hsubmitted hle
  · by_cases heq : grantedPath auth p.other = grantedPath auth p
    · exact h.found_of_shorter hlaw hsame hquiet hsubmitted (heq ▸ List.prefix_refl _)
    · exact h.found_of_longer hlaw hsound hsame hquiet hsubmitted hle heq

end PaiSession

end Model

/-! ### A read capability overtakes the replies -/

namespace PaiSession

open IrohWillow.Sample PaiSession.Sample

attribute [local instance] countingScheme acceptingSignatures plainHash noAreas

theorem Sample.honest {a : ReadAuthorisation} : Honest Sample.secrets a :=
  ⟨⟨rfl, fun _ => ⟨_, rfl, rfl⟩⟩, fun _ _ => ⟨rfl, fun _ => ⟨_, rfl, rfl⟩⟩⟩

/-- Nothing is on its way, and both authorisations were submitted. -/
def Sample.settled (auth : Role → ReadAuthorisation) (s : PaiSession) : Bool :=
  [Role.alfie, .betty].all fun p =>
    decide (s.exchange.received p = (s.exchange.sent p.other).length) &&
    decide (s.receivedControl p = (s.peer p.other).control.length) &&
    decide (s.receivedCapability p = (s.peer p.other).capability.length) &&
    (s.peer p).paiInbox.isEmpty && (s.peer p).intersectionInbox.isEmpty &&
    ((s.peer p).intersections.interests (auth p)).isSome

theorem Sample.of_settled {auth : Role → ReadAuthorisation} {s : PaiSession}
    (h : Sample.settled auth s = true) :
    s.Quiet ∧ ∀ p, (s.peer p).intersections.interests (auth p) ≠ none := by
  have hall : ∀ p : Role, s.exchange.received p = (s.exchange.sent p.other).length ∧
      s.receivedControl p = (s.peer p.other).control.length ∧
      s.receivedCapability p = (s.peer p.other).capability.length ∧
      (s.peer p).paiInbox = [] ∧ (s.peer p).intersectionInbox = [] ∧
      (s.peer p).intersections.interests (auth p) ≠ none := by
    simp only [Sample.settled, List.all_cons, List.all_nil, Bool.and_true, Bool.and_eq_true,
      decide_eq_true_eq, List.isEmpty_iff, Option.isSome_iff_ne_none, and_assoc] at h
    intro p
    cases p with
    | alfie => exact ⟨h.1, h.2.1, h.2.2.1, h.2.2.2.1, h.2.2.2.2.1, h.2.2.2.2.2.1⟩
    | betty => exact h.2.2.2.2.2.2
  refine ⟨⟨fun p => (hall p).1, fun p => (hall p).2.1, fun p => (hall p).2.2.1,
    fun p => (hall p).2.2.2.1, fun p => (hall p).2.2.2.2.1⟩, fun p => (hall p).2.2.2.2.2⟩

/-- Alfie may read everything, Betty what is under one path. -/
def Sample.rootAndOne : Role → ReadAuthorisation
  | .alfie => readAuthorisation .any [] none
  | .betty => readAuthorisation .any [[1]] none

/-- Betty takes Alfie's read capability before his reply to her first fragment. -/
def Sample.overtaken : List Action :=
  submit .alfie [Sample.rootAndOne .alfie] ++ submit .betty [Sample.rootAndOne .betty] ++
    deliver .betty 1 ++ deliver .alfie 3 ++
    [.takeIntersection .alfie, .deliverCapability .betty, .takePai .betty [0, 1] []] ++
    deliver .betty 2

/-- Betty takes the replies first. -/
def Sample.inTime : List Action :=
  submit .alfie [Sample.rootAndOne .alfie] ++ submit .betty [Sample.rootAndOne .betty] ++
    deliver .betty 1 ++ deliver .alfie 3 ++ deliver .betty 2 ++
    [.takeIntersection .alfie, .deliverCapability .betty, .takePai .betty [0, 1] [],
      .takeIntersection .betty, .deliverCapability .alfie, .takePai .alfie [0, 1] []]

theorem Sample.rootAndOne_sameSubspace : SameSubspace Sample.rootAndOne where
  namespaceId p := by cases p <;> rfl
  subspace p := by cases p <;> rfl

theorem Sample.rootAndOne_paths : (grantedPath Sample.rootAndOne .alfie).IsPrefixOf
    (grantedPath Sample.rootAndOne .betty) := by decide

instance (auth : Role → ReadAuthorisation) (s : PaiSession) :
    (a : Action) → Decidable (SubmitsOnly auth s a)
  | .addInterests p interests =>
      inferInstanceAs (Decidable (∀ x ∈ interests, x.1 = auth p))
  | .deliverControl _ => isTrue trivial
  | .deliverCapability _ => isTrue trivial
  | .takePai _ _ _ => isTrue trivial
  | .deliverIntersection _ _ => isTrue trivial
  | .takeIntersection _ => isTrue trivial

instance (s : PaiSession) : (a : Action) → Decidable (Timely s a)
  | .takePai p _ _ =>
      match h : (s.peer p).paiInbox with
      | .receivedReadCapForIntersection t :: _ =>
          decidable_of_iff (∀ y ∈ (s.exchange.finder p.other).fragments[t]?,
            ∀ o < (s.exchange.finder p).fragments.length,
            ∀ x ∈ (s.exchange.finder p).fragments[o]?, x.Meets y →
              x.info.onIntersection = .replyReadCap → o < s.exchange.replied p)
            (by simp only [Timely, h])
      | .receivedSubspaceCapRequest t :: _ =>
          decidable_of_iff (∀ y ∈ (s.exchange.finder p.other).fragments[t]?,
            ∀ o < (s.exchange.finder p).fragments.length,
            ∀ x ∈ (s.exchange.finder p).fragments[o]?, x.fragment = y.fragment →
              o < s.exchange.replied p)
            (by simp only [Timely, h])
      | [] => isTrue (by simp [Timely, h])
      | .established :: _ => isTrue (by simp [Timely, h])
      | .submitAuthorisation _ :: _ => isTrue (by simp [Timely, h])
      | .receivedMessage _ :: _ => isTrue (by simp [Timely, h])
      | .receivedVerifiedSubspaceCapReply _ _ :: _ => isTrue (by simp [Timely, h])
  | .addInterests _ _ => isTrue trivial
  | .deliverControl _ => isTrue trivial
  | .deliverCapability _ => isTrue trivial
  | .deliverIntersection _ _ => isTrue trivial
  | .takeIntersection _ => isTrue trivial

set_option maxRecDepth 4000 in
/-- Betty finds nothing. -/
theorem overtaking_read_capability_is_lost :
    ¬ ∀ auth : Role → ReadAuthorisation, (∀ p, Honest Sample.secrets (auth p)) →
      SameSubspace auth → (grantedPath auth .alfie).IsPrefixOf (grantedPath auth .betty) →
      ∀ s, Transition.Reachable step (SubmitsOnly auth) session s → s.Quiet →
        (∀ p, (s.peer p).intersections.interests (auth p) ≠ none) → ∀ p, Found auth s p := by
  intro h
  have hrun : ((Transition.run step session Sample.overtaken).map fun s =>
      (Sample.settled Sample.rootAndOne s, Sample.intersections s .betty)) = some (true, []) := by
    rfl
  obtain ⟨s, hs, heq⟩ := Option.map_eq_some_iff.mp hrun
  obtain ⟨hsettled, hnothing⟩ := Prod.mk.inj heq
  obtain ⟨hquiet, hknown⟩ := Sample.of_settled hsettled
  obtain ⟨k, hk⟩ := h Sample.rootAndOne (fun _ => Sample.honest) Sample.rootAndOne_sameSubspace
    Sample.rootAndOne_paths s (.of_run hs (by decide)) hquiet hknown .betty
  have hmem := Sample.mem_intersections.mpr hk
  rw [hnothing] at hmem
  cases hmem

set_option maxRecDepth 4000 in
theorem primary_fragments_agree_in_time :
    ∃ s, Transition.Reachable step (fun s a => SubmitsOnly Sample.rootAndOne s a ∧ Timely s a)
      session s ∧ s.Quiet ∧ ∀ p, Found Sample.rootAndOne s p := by
  have hrun : ((Transition.run step session Sample.inTime).map
      (Sample.settled Sample.rootAndOne)) = some true := by rfl
  obtain ⟨s, hs, hsettled⟩ := Option.map_eq_some_iff.mp hrun
  obtain ⟨hquiet, hknown⟩ := Sample.of_settled hsettled
  have hreach : Transition.Reachable step
      (fun s a => SubmitsOnly Sample.rootAndOne s a ∧ Timely s a) session s :=
    .of_run hs (by decide)
  exact ⟨s, hreach, hquiet, primary_fragments_agree countingScheme_lawful _ _ _
    Sample.rootAndOne (fun _ => Sample.honest) Sample.rootAndOne_sameSubspace
    (.inl Sample.rootAndOne_paths) s hreach hquiet hknown⟩

end PaiSession

end IrohWillow
