import IrohWillow.Session.PaiSession

/-!
# Soundness of private area intersection

An intersection that a `PaiFinder` puts out is meant to be one of an own
authorisation with an authorisation of the peer. It is when the fragments that
met include the most specific one of either side. A read capability that the peer
sends in reply names a less specific fragment: it then makes the finder put out
every own authorisation that has this fragment too, whether it overlaps or not.
-/

namespace IrohWillow

/-- The granted areas overlap in subspace and path, in one namespace. -/
def ReadAuthorisation.Overlaps (a b : ReadAuthorisation) : Prop :=
  a.namespaceId = b.namespaceId ∧
    (a.readCap.grantedArea.path.IsPrefixOf b.readCap.grantedArea.path ∨
      b.readCap.grantedArea.path.IsPrefixOf a.readCap.grantedArea.path) ∧
    (a.readCap.grantedArea.subspace = b.readCap.grantedArea.subspace ∨
      a.readCap.grantedArea.subspace = .any ∨ b.readCap.grantedArea.subspace = .any)

instance (a b : ReadAuthorisation) : Decidable (a.Overlaps b) :=
  inferInstanceAs (Decidable (_ ∧ _ ∧ _))

section Model

variable [PaiScheme]

/-- Authorisations overlap when fragments of them meet and one of the two is the
most specific one. -/
theorem overlaps_of_meets (hlaw : PaiScheme.Lawful) {a b : ReadAuthorisation} {x y : LocalFragment}
    (hx : x ∈ PaiFinder.fragmentsOf a) (hy : y ∈ PaiFinder.fragmentsOf b) (hmeets : x.Meets y)
    (hspecific : x.isMostSpecific = true ∨ y.isMostSpecific = true) : a.Overlaps b := by
  obtain ⟨-, q, hq, hxq, hxparts⟩ := (PaiFinder.mem_fragmentsOf hlaw).mp hx
  obtain ⟨-, r, hr, hyr, hyparts⟩ := (PaiFinder.mem_fragmentsOf hlaw).mp hy
  obtain ⟨hequal, hkind⟩ := hmeets
  have hparts : ∀ {n n' : NamespaceId} {u u' : AreaSubspace},
      x.fragment.intoParts = (n, u, q) → y.fragment.intoParts = (n', u', r) →
      n = n' ∧ u = u' ∧ q = r := by
    intro n n' u u' hx' hy'
    rw [hequal, hy'] at hx'
    simp only [Prod.mk.injEq] at hx'
    exact ⟨hx'.1.symm, hx'.2.1.symm, hx'.2.2.symm⟩
  have hpaths : q = r → a.readCap.grantedArea.path.IsPrefixOf b.readCap.grantedArea.path ∨
      b.readCap.grantedArea.path.IsPrefixOf a.readCap.grantedArea.path := by
    rintro rfl
    rcases hspecific with hs | hs
    · exact .inl (hxq.mp hs ▸ hr)
    · exact .inr (hyr.mp hs ▸ hq)
  rcases hxparts with ⟨hxk, hx'⟩ | ⟨hxk, -, hx'⟩ <;>
    rcases hyparts with ⟨hyk, hy'⟩ | ⟨hyk, -, hy'⟩
  · obtain ⟨hns, hsub, hqr⟩ := hparts hx' hy'
    exact ⟨hns, hpaths hqr, .inl hsub⟩
  · obtain ⟨hns, hsub, hqr⟩ := hparts hx' hy'
    exact ⟨hns, hpaths hqr, .inr (.inl hsub)⟩
  · obtain ⟨hns, hsub, hqr⟩ := hparts hx' hy'
    exact ⟨hns, hpaths hqr, .inr (.inr hsub.symm)⟩
  · exact absurd ⟨hxk, hyk⟩ hkind

namespace PaiSession

/-- A read capability that names a fragment of the peer which is not the most
specific one of its authorisation comes when none of our less specific primary
fragments that were replied to meets it. -/
def NamesMostSpecific (s : PaiSession) : Action → Prop
  | .takePai p _ _ =>
      match (s.peer p).paiInbox with
      | .receivedReadCapForIntersection t :: _ =>
          ∀ y ∈ (s.exchange.finder p.other).fragments[t]?, y.isMostSpecific = false →
            ∀ o < s.exchange.replied p, ∀ x ∈ (s.exchange.finder p).fragments[o]?,
              x.Meets y → x.kind = .secondary ∨ x.isMostSpecific = true
      | _ => True
  | _ => True

/-- Each intersection belongs to fragments that met, of which one is the most
specific one of its authorisation. -/
def Sound (s : PaiSession) : Prop :=
  ∀ (p : Role) (i : PaiIntersection), .newIntersection i ∈ (s.exchange.finder p).outputs →
    ∃ (x : LocalFragment) (t : Nat) (y : LocalFragment),
      (s.exchange.finder p).fragments[i.handle]? = some x ∧
      i.authorisation = x.authorisation ∧
      (s.exchange.finder p.other).fragments[t]? = some y ∧ x.Meets y ∧
      (x.isMostSpecific = true ∨ y.isMostSpecific = true)

variable [Meadowcap] [ChallengeHash] [WillowDataModel] {s s' : PaiSession}

/-- One step keeps it. -/
theorem Sound.step (hlaw : PaiScheme.Lawful) (hinv : s.exchange.Inv) (h : s.Sound) {a : Action}
    (hallowed : NamesMostSpecific s a) (hstep : PaiSession.step s a = some s') : s'.Sound := by
  intro p i hi
  have hex := exchange_of_step hstep
  have hgrow : ∀ p, (s.exchange.finder p).fragments <+: (s'.exchange.finder p).fragments := by
    rcases hex with heq | ⟨a', -, hex⟩
    · exact fun p => heq ▸ List.prefix_refl _
    · exact hinv.fragments_isPrefix hlaw hex
  rcases hex with heq | ⟨a', hcause, hex⟩
  · rw [heq] at hi ⊢
    exact h p i hi
  · rcases hinv.found hlaw hex hi with hold | ⟨x, t, y, hfound⟩
    · obtain ⟨x, t, y, hx, hauth, hy, hmeets, hspecific⟩ := h p i hold
      exact ⟨x, t, y, getElem?_of_isPrefix (hgrow _) hx, hauth, getElem?_of_isPrefix (hgrow _) hy,
        hmeets, hspecific⟩
    · refine ⟨x, t, y, getElem?_of_isPrefix (hgrow _) hfound.own, hfound.authorisation,
        getElem?_of_isPrefix (hgrow _) hfound.peer, hfound.meets, ?_⟩
      rcases hfound.cause with hspecific | ⟨hon, hlt, order, drained, rfl⟩
      · exact .inl hspecific
      · refine .inr ?_
        obtain ⟨hkind, hless⟩ := PaiExchange.of_replyReadCap hon
        obtain ⟨rest, rfl, hinbox⟩ := hcause.of_input
        simp only [NamesMostSpecific, hinbox] at hallowed
        by_contra hy
        rcases hallowed y hfound.peer (by simpa using hy) i.handle hlt x hfound.own hfound.meets
          with hk | hm
        · rw [hkind] at hk
          cases hk
        · rw [hless] at hm
          cases hm

theorem sound_of_reachable (hlaw : PaiScheme.Lawful) {scalar : Role → PsiScalar}
    {nonce : Role → AccessChallenge} {secrets : Role → SecretStorage}
    (hs : Transition.Reachable step NamesMostSpecific (start scalar nonce secrets) s) :
    s.exchange.Inv ∧ s.Sound := by
  refine hs.invariant (P := fun s => s.exchange.Inv ∧ s.Sound) ?_ ?_
  · refine ⟨PaiExchange.inv_start scalar, fun p i hi => ?_⟩
    simp [start, PaiExchange.start] at hi
  · rintro s a s' ⟨hinv, hsound⟩ hallowed hstep
    refine ⟨?_, hsound.step hlaw hinv hallowed hstep⟩
    rcases exchange_of_step hstep with heq | ⟨a', -, hex⟩
    · rwa [heq]
    · exact hinv.step hlaw hex

/-- **Soundness.** When read capabilities that are not for a most specific fragment
find no less specific fragment of ours, every intersection put out is one with an
overlapping authorisation that the other peer has submitted. -/
theorem intersections_overlap (hlaw : PaiScheme.Lawful) (scalar : Role → PsiScalar)
    (nonce : Role → AccessChallenge) (secrets : Role → SecretStorage) (s : PaiSession)
    (hs : Transition.Reachable step NamesMostSpecific (start scalar nonce secrets) s) (p : Role)
    (i : PaiIntersection) (hi : .newIntersection i ∈ (s.exchange.finder p).outputs) :
    ∃ a ∈ (s.exchange.finder p.other).submitted, i.authorisation.Overlaps a := by
  obtain ⟨hinv, hsound⟩ := sound_of_reachable hlaw hs
  obtain ⟨x, t, y, hx, hauth, hy, hmeets, hspecific⟩ := hsound p i hi
  have hx' := ((hinv.complete p x).mp (List.mem_of_getElem? hx)).2
  obtain ⟨hsubmitted, hy'⟩ := (hinv.complete p.other y).mp (List.mem_of_getElem? hy)
  exact ⟨y.authorisation, hsubmitted, hauth ▸ overlaps_of_meets hlaw hx' hy' hmeets hspecific⟩

end PaiSession

end Model

/-! ### A reply to a reply -/

namespace PaiSession

open IrohWillow.Sample PaiSession.Sample

attribute [local instance] countingScheme acceptingSignatures plainHash noAreas

/-- Alfie has authorisations for a path and for an extension of it, Betty has one
for another extension. -/
def Sample.siblings : List Action :=
  submit .alfie [readAuthorisation .any [[1]] none, readAuthorisation .any [[1], [2]] none] ++
    submit .betty [readAuthorisation .any [[1], [3]] none] ++
    deliver .betty 5 ++ deliver .alfie 8 ++ deliver .betty 3

instance (s : PaiSession) : (a : Action) → Decidable (NamesMostSpecific s a)
  | .takePai p _ _ =>
      match h : (s.peer p).paiInbox with
      | .receivedReadCapForIntersection t :: _ =>
          decidable_of_iff (∀ y ∈ (s.exchange.finder p.other).fragments[t]?,
            y.isMostSpecific = false → ∀ o < s.exchange.replied p,
              ∀ x ∈ (s.exchange.finder p).fragments[o]?,
                x.Meets y → x.kind = .secondary ∨ x.isMostSpecific = true)
            (by simp [NamesMostSpecific, h])
      | [] => isTrue (by simp [NamesMostSpecific, h])
      | .established :: _ => isTrue (by simp [NamesMostSpecific, h])
      | .submitAuthorisation _ :: _ => isTrue (by simp [NamesMostSpecific, h])
      | .receivedMessage _ :: _ => isTrue (by simp [NamesMostSpecific, h])
      | .receivedSubspaceCapRequest _ :: _ => isTrue (by simp [NamesMostSpecific, h])
      | .receivedVerifiedSubspaceCapReply _ _ :: _ => isTrue (by simp [NamesMostSpecific, h])
  | .addInterests _ _ => isTrue trivial
  | .deliverControl _ => isTrue trivial
  | .deliverCapability _ => isTrue trivial
  | .deliverIntersection _ _ => isTrue trivial
  | .takeIntersection _ => isTrue trivial

/-- The intersections among the outputs of a finder. -/
def Sample.intersections (s : PaiSession) (p : Role) : List PaiIntersection :=
  (s.exchange.finder p).outputs.filterMap fun
    | .newIntersection i => some i
    | _ => none

theorem Sample.mem_intersections {s : PaiSession} {p : Role} {i : PaiIntersection} :
    i ∈ Sample.intersections s p ↔ .newIntersection i ∈ (s.exchange.finder p).outputs := by
  unfold Sample.intersections
  rw [List.mem_filterMap]
  constructor
  · rintro ⟨o, ho, heq⟩
    split at heq
    · obtain rfl := Option.some.inj heq
      exact ho
    · cases heq
  · exact fun hi => ⟨_, hi, rfl⟩

set_option maxRecDepth 4000 in
/-- Betty's reply names the common path, and Alfie answers it with the longer
authorisation too. -/
theorem reply_finds_disjoint_authorisation :
    ¬ ∀ s, Transition.Reachable step (fun _ _ => True) session s →
      ∀ (p : Role) (i : PaiIntersection),
        .newIntersection i ∈ (s.exchange.finder p).outputs →
        ∃ a ∈ (s.exchange.finder p.other).submitted, i.authorisation.Overlaps a := by
  intro h
  have hrun : ((Transition.run step session (Sample.siblings ++
      Sample.sendReadCapability .alfie ++ Sample.sendReadCapability .betty)).map fun s =>
      (Sample.intersections s .alfie, (s.exchange.finder .betty).submitted)) =
      some ([⟨readAuthorisation .any [[1]] none, 1⟩, ⟨readAuthorisation .any [[1], [2]] none, 3⟩],
        {readAuthorisation .any [[1], [3]] none}) := by rfl
  obtain ⟨s, hs, heq⟩ := Option.map_eq_some_iff.mp hrun
  obtain ⟨hfound, hsubmitted⟩ := Prod.mk.inj heq
  obtain ⟨a, ha, hoverlaps⟩ := h s (.of_run hs (by decide)) .alfie
    ⟨readAuthorisation .any [[1], [2]] none, 3⟩ (Sample.mem_intersections.mp (by simp [hfound]))
  rw [Role.other, hsubmitted, Finset.mem_singleton] at ha
  subst ha
  revert hoverlaps
  decide

set_option maxRecDepth 4000 in
/-- Before the reply all is well. -/
theorem intersections_overlap_siblings :
    ∃ s, Transition.Reachable step NamesMostSpecific session s ∧
      ∃ i, .newIntersection i ∈ (s.exchange.finder .alfie).outputs ∧
        ∃ a ∈ (s.exchange.finder .betty).submitted, i.authorisation.Overlaps a := by
  have hrun : ((Transition.run step session (Sample.siblings ++
      Sample.sendReadCapability .alfie)).map fun s => Sample.intersections s .alfie) =
      some [⟨readAuthorisation .any [[1]] none, 1⟩] := by rfl
  obtain ⟨s, hs, hfound⟩ := Option.map_eq_some_iff.mp hrun
  have hreach : Transition.Reachable step NamesMostSpecific session s := .of_run hs (by decide)
  have hi : .newIntersection ⟨readAuthorisation .any [[1]] none, 1⟩ ∈
      (s.exchange.finder .alfie).outputs := Sample.mem_intersections.mp (by simp [hfound])
  exact ⟨s, hreach, _, hi, intersections_overlap countingScheme_lawful _ _ _ s hreach .alfie _ hi⟩

end PaiSession

end IrohWillow
