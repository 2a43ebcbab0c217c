import IrohWillow.Session.PaiRequests
import IrohWillow.Session.PaiSoundness

/-!
# One authorisation each

Each of two sessions submits one authorisation. What a session knows and submits is
then this one; every intersection it finds is forwarded, and leads to a read
capability, which the other session takes and looks at. No step fails. The invariant
holds in runs in which requests name the own handle, and capabilities and requests are
taken when the fragments they are about were replied to.
-/

namespace IrohWillow

section Model

variable [PaiScheme]

/-! ## Matches and intersections -/

namespace PaiExchange

open PaiFinder (Matches Reacts reaction)

/-- Intersections are put out for matches: for all of a most specific primary fragment,
and only for matches. -/
structure Acts (s : PaiExchange) (p : Role) : Prop where
  found : ∀ o t x, (o, t) ∈ (s.finder p).acted → (s.finder p).fragments[o]? = some x →
    x.info.onIntersection = .bindReadCap →
    .newIntersection ⟨x.authorisation, o⟩ ∈ (s.finder p).outputs
  source : ∀ i, .newIntersection i ∈ (s.finder p).outputs → ∃ t, (i.handle, t) ∈ (s.finder p).acted

theorem acts_start (scalar : Role → PsiScalar) (p : Role) : (start scalar).Acts p where
  found o t x hacted := by simp [start] at hacted
  source i hi := by simp [start] at hi

variable {s s' : PaiExchange} {p : Role}

/-- What an input puts out about intersections was acted on before. -/
theorem Inv.acted_of_input (h : s.Inv) {order : List Nat} {input : PaiFinder.Input}
    {res : Except PaiFinder.Failure Unit} {f' : PaiFinder}
    (hr : Reacts (s.finder p) (s.known p) (s.replied p) order input res f')
    {i : PaiIntersection} (hi : .newIntersection i ∈ f'.outputs) :
    .newIntersection i ∈ (s.finder p).outputs ∨ ∃ t, (i.handle, t) ∈ (s.finder p).acted := by
  have hmessages : ∀ {outputs : List PaiFinder.Output} {new : List LocalFragment},
      outputs = (s.finder p).outputs ++ new.map (fun x =>
        .sendMessage (PaiFinder.bindMessage (s.finder p).scalar x)) →
      .newIntersection i ∈ outputs → .newIntersection i ∈ (s.finder p).outputs := by
    rintro outputs new rfl hmem
    rcases List.mem_append.mp hmem with hmem | hmem
    · exact hmem
    · obtain ⟨x, -, hx⟩ := List.mem_map.mp hmem
      cases hx
  cases hr with
  | queued _ => exact .inl hi
  | submitted _ hnew _ _ => exact .inl (hmessages hnew.outputs hi)
  | established _ hnew _ _ => exact .inl (hmessages hnew.outputs hi)
  | establishedAgain _ => exact .inl hi
  | request _ =>
      rcases List.mem_append.mp hi with hi | hi
      · exact .inl hi
      · obtain ⟨cap, -, hcap⟩ := List.mem_map.mp hi
        cases hcap
  | requestMissing _ => exact .inl hi
  | @readCap t y hy =>
      rcases List.mem_append.mp hi with hi | hi
      · exact .inl hi
      · obtain ⟨j, hj, heq⟩ := List.mem_map.mp hi
        obtain rfl := PaiFinder.Output.newIntersection.inj heq
        obtain ⟨o, -, ho⟩ := List.mem_filterMap.mp hj
        unfold PaiFinder.replyTo at ho
        split at ho
        · cases ho
        · rename_i x hx
          split at ho
          · rename_i hcond
            obtain rfl := Option.some.inj ho
            exact .inr ⟨t, (h.acted p o t).mpr ⟨hcond.1, x, y, hx, hy, hcond.2.1⟩⟩
          · cases ho
  | readCapMissing _ => exact .inl hi
  | @reply o _ x _ hrequested _ =>
      rcases List.mem_append.mp hi with hi | hi
      · exact .inl hi
      · obtain rfl := PaiFinder.Output.newIntersection.inj (List.mem_singleton.mp hi)
        exact .inr (h.requested p o hrequested).2
  | replyWrongNamespace _ _ _ => exact .inl hi
  | replyInvalid _ => exact .inl hi

theorem Acts.of_input (h : s.Inv) (ha : s.Acts p) {order : List Nat} {input : PaiFinder.Input}
    {res : Except PaiFinder.Failure Unit}
    (hr : Reacts (s.finder p) (s.known p) (s.replied p) order input res (s'.finder p)) :
    s'.Acts p := by
  obtain ⟨new, hlocal⟩ := exists_local_of_reacts hr
  obtain ⟨outputs, houtputs, -⟩ : ∃ new, (s'.finder p).outputs = (s.finder p).outputs ++ new ∧
      ∀ o ∈ new, Explained s p (.input p order [] input) o := explained_of_reacts h hr
  refine ⟨fun o t x hacted hx hon => ?_, fun i hi => ?_⟩
  · rw [hlocal.acted] at hacted
    have hlt := ((h.acted p o t).mp hacted).1.trans_le (h.knows p).replies_le
    rw [hlocal.fragments, List.getElem?_append_left hlt] at hx
    rw [houtputs]
    exact List.mem_append_left _ (ha.found o t x hacted hx hon)
  · rw [hlocal.acted]
    rcases h.acted_of_input hr hi with hold | hacted
    · exact ha.source i hold
    · exact hacted

theorem Acts.of_delivery (ha : s.Acts p) {message : IntersectionMessage} {handle : Nat}
    {sent : List PaiFinder.Output} {ms : List (Nat × Nat)}
    (hd : Delivery s s' p message handle sent ms) : s'.Acts p := by
  have hc := hd.checked
  refine ⟨fun o t x hacted hx hon => ?_, fun i hi => ?_⟩
  · rw [hc.acted] at hacted
    rw [hc.fragments] at hx
    rw [hc.outputs, List.append_assoc]
    rcases List.mem_append.mp hacted with hacted | hmem
    · exact List.mem_append_left _ (ha.found o t x hacted hx hon)
    · refine List.mem_append_right _ (List.mem_append_right _ ?_)
      refine List.mem_filterMap.mpr ⟨(o, t), hmem, ?_⟩
      simp only [reaction, hx, hon]
      rfl
  · rw [hc.outputs, List.append_assoc] at hi
    rw [hc.acted]
    rcases List.mem_append.mp hi with hi | hi
    · obtain ⟨t, ht⟩ := ha.source i hi
      exact ⟨t, List.mem_append_left _ ht⟩
    · rcases List.mem_append.mp hi with hi | hi
      · obtain ⟨m, hm⟩ := hd.only_messages _ hi
        cases hm
      · obtain ⟨⟨o, t⟩, hmem, hreaction⟩ := List.mem_filterMap.mp hi
        have ho : i.handle = o := by
          unfold reaction at hreaction
          split at hreaction
          · cases hreaction
          · split at hreaction <;> cases hreaction
            rfl
        exact ⟨t, List.mem_append_right _ (ho ▸ hmem)⟩

theorem Acts.step (hlaw : PaiScheme.Lawful) (h : s.Inv) (ha : ∀ p, s.Acts p) {a : Action}
    (hstep : PaiExchange.step s a = some s') : ∀ p, s'.Acts p := by
  obtain ⟨hother, -⟩ := finder_other_of_step hstep
  refine Role.forall_of a.peer ?_ ?_
  · cases a with
    | input p order drained input => exact (ha p).of_input h (h.input hlaw hstep).1
    | deliver p order =>
        obtain ⟨⟨message, handle, sent, ms, hd⟩, -⟩ := h.deliver hlaw hstep
        exact (ha p).of_delivery hd
  · refine ⟨?_, ?_⟩
    · rw [hother]
      exact (ha _).found
    · rw [hother]
      exact (ha _).source

/-- A fragment that was replied to is known to the other finder. -/
theorem Inv.replied_le_known (h : s.Inv) (p : Role) : s.replied p ≤ (s.known p.other).length := by
  have hle := (replies_delivered_isPrefix s p).length_le
  rwa [h.replies_sent, List.length_mapIdx] at hle

/-- An intersection is put out under a handle that the other finder knows. -/
theorem Inv.known_of_found (h : s.Inv) (ha : s.Acts p) {i : PaiIntersection}
    (hi : .newIntersection i ∈ (s.finder p).outputs) : i.handle < (s.known p.other).length := by
  obtain ⟨t, ht⟩ := ha.source i hi
  exact ((h.acted p i.handle t).mp ht).1.trans_le (h.replied_le_known p)

end PaiExchange

/-! ## Two sessions with one authorisation each -/

namespace PaiSession

open PaiFinder (fragmentsOf)
open PaiPeer (Processed intersectionInputs)

/-- Each session gets interests for one authorisation only. -/
def SubmitsOnly (auth : Role → ReadAuthorisation) (_ : PaiSession) : Action → Prop
  | .addInterests p interests => ∀ x ∈ interests, x.1 = auth p
  | _ => True

/-- **The condition.** When a read capability or a request for a subspace capability is
taken, every fragment of ours that it is about was replied to. -/
def Timely (s : PaiSession) : Action → Prop
  | .takePai p _ _ =>
      match (s.peer p).paiInbox with
      | .receivedReadCapForIntersection t :: _ =>
          ∀ y ∈ (s.exchange.finder p.other).fragments[t]?,
            ∀ o < (s.exchange.finder p).fragments.length,
            ∀ x ∈ (s.exchange.finder p).fragments[o]?, x.Meets y →
              x.info.onIntersection = .replyReadCap → o < s.exchange.replied p
      | .receivedSubspaceCapRequest t :: _ =>
          ∀ y ∈ (s.exchange.finder p.other).fragments[t]?,
            ∀ o < (s.exchange.finder p).fragments.length,
            ∀ x ∈ (s.exchange.finder p).fragments[o]?, x.fragment = y.fragment →
              o < s.exchange.replied p
      | _ => True
  | _ => True

/-- The finder has put out an intersection for the authorisation. -/
def Found (auth : Role → ReadAuthorisation) (s : PaiSession) (p : Role) : Prop :=
  ∃ h, .newIntersection ⟨auth p, h⟩ ∈ (s.exchange.finder p).outputs

/-- What a read capability for the fragment of the other session under `t` is to find
was found. -/
def Answered (auth : Role → ReadAuthorisation) (s : PaiSession) (p : Role) (t : Nat) : Prop :=
  ∀ y ∈ (s.exchange.finder p.other).fragments[t]?, ∀ x ∈ fragmentsOf (auth p), x.Meets y →
    x.info.onIntersection = .replyReadCap → Found auth s p

section

variable [Meadowcap]

/-- The keys of the capabilities are stored. -/
structure Honest (secrets : SecretStorage) (a : ReadAuthorisation) : Prop where
  readCap : secrets.Holds a.readCap.receiver
  subspaceCap : ∀ cap ∈ a.subspaceCap, secrets.Holds cap.receiver

/-- The session has signed for the user. -/
def SignedBy (nonce : Role → AccessChallenge) (p : Role) (user : UserId)
    (signature : UserSignature) : Prop :=
  Meadowcap.isPublicKey user = true ∧
    Meadowcap.verify user (sessionChallenge nonce p) signature = true

/-- **A session with one authorisation.** It knows and submits no other, every
intersection leads to a read capability, and every read capability of the other session
is looked at. -/
structure Single (auth : Role → ReadAuthorisation) (nonce : Role → AccessChallenge)
    (s : PaiSession) (p : Role) : Prop where
  honest : Honest (s.peer p).secrets (auth p)
  interests : ∀ a, (s.peer p).intersections.interests a ≠ none → a = auth p
  adds : ∀ l, .addInterests l ∈ (s.peer p).intersectionInbox → ∀ x ∈ l, x.1 = auth p
  /-- What is known is submitted. -/
  submitted : ∀ a, (s.peer p).intersections.interests a ≠ none ↔
    .submitAuthorisation a ∈ (s.peer p).paiInbox ∨
      a ∈ (s.exchange.finder p).pending.getD ∅ ∨ a ∈ (s.exchange.finder p).submitted
  established : s.receivedControl p ≠ 0 →
    .established ∈ (s.peer p).paiInbox ∨ (s.exchange.finder p).pending = none
  /-- What is found is forwarded, and a read capability is sent for it. -/
  forwarded : ∀ i, .newIntersection i ∈ (s.exchange.finder p).outputs →
    .paiIntersection i.authorisation i.handle ∈ (s.peer p).intersectionInbox ∨
      ∃ m ∈ (s.peer p).capability, m.capability = i.authorisation.readCap
  bound : ∀ k cap, (s.peer p).caps.ours.tryGet k = some cap →
    ∃ m ∈ (s.peer p).capability, m.capability = cap
  signed : ∀ m ∈ (s.peer p).capability, SignedBy nonce p m.capability.receiver m.signature
  signedReplies : ∀ m, .paiReplySubspaceCapability m ∈ (s.peer p).control →
    SignedBy nonce p m.capability.receiver m.signature
  /-- The read capabilities of the other session. -/
  received_le : s.receivedCapability p ≤ (s.peer p.other).capability.length
  heard : ∀ m ∈ (s.peer p.other).capability.take (s.receivedCapability p),
    .receivedReadCapForIntersection m.handle ∈ (s.peer p).paiInbox ∨ Answered auth s p m.handle
  readCaps : ∀ t, .receivedReadCapForIntersection t ∈ (s.peer p).paiInbox →
    ∃ i, .newIntersection i ∈ (s.exchange.finder p.other).outputs ∧ i.handle = t
  failed : (s.peer p).failed = none

variable [ChallengeHash] {auth : Role → ReadAuthorisation} {nonce : Role → AccessChallenge}
  {s s' : PaiSession} {p q : Role}

theorem single_start {scalar : Role → PsiScalar} {secrets : Role → SecretStorage}
    (hhonest : ∀ p, Honest (secrets p) (auth p)) (p : Role) :
    Single auth nonce (start scalar nonce secrets) p where
  honest := hhonest p
  interests a ha := by simp [start] at ha
  adds l hl := by simp [start] at hl
  submitted a := by simp [start, PaiExchange.start]
  established h := by simp [start] at h
  forwarded i hi := by simp [start, PaiExchange.start] at hi
  bound k cap hk := by
    exfalso
    revert hk
    show (({} : ResourceMap ReadCapability).tryGet k) = some cap → False
    simp [ResourceMap.tryGet]
  signed m hm := by simp [start] at hm
  signedReplies m hm := by simp [start] at hm
  received_le := by simp [start]
  heard m hm := by simp [start] at hm
  readCaps t ht := by simp [start] at ht
  failed := rfl

omit [Meadowcap] [ChallengeHash] in
theorem Found.mono (h : Found auth s p)
    (hpre : (s.exchange.finder p).outputs <+: (s'.exchange.finder p).outputs) :
    Found auth s' p := by
  obtain ⟨k, hk⟩ := h
  exact ⟨k, hpre.subset hk⟩

omit [Meadowcap] [ChallengeHash] in
/-- The fragment does not change when it is there. -/
theorem Answered.mono {t : Nat} (h : Answered auth s p t)
    (ht : t < (s.exchange.finder p.other).fragments.length)
    (hfragments : (s.exchange.finder p.other).fragments <+:
      (s'.exchange.finder p.other).fragments)
    (hpre : (s.exchange.finder p).outputs <+: (s'.exchange.finder p).outputs) :
    Answered auth s' p t := by
  intro y hy x hx hmeets hon
  have hget := List.getElem?_eq_getElem ht
  have hsame := getElem?_of_isPrefix hfragments hget
  have heq := hget.trans (hsame.symm.trans hy)
  exact (h y heq x hx hmeets hon).mono hpre

omit [ChallengeHash] in
/-- The steps of the other session only add to what it has sent and found. -/
theorem Single.of_other (h : Single auth nonce s p) (hpeer : s'.peer p = s.peer p)
    (hfinder : s'.exchange.finder p = s.exchange.finder p)
    (hcontrol : s'.receivedControl p = s.receivedControl p)
    (hreceived : s'.receivedCapability p = s.receivedCapability p)
    (hcapability : (s.peer p.other).capability <+: (s'.peer p.other).capability)
    (hfragments : (s.exchange.finder p.other).fragments <+:
      (s'.exchange.finder p.other).fragments)
    (houtputs : (s.exchange.finder p.other).outputs <+: (s'.exchange.finder p.other).outputs)
    (hhandles : ∀ m ∈ (s.peer p.other).capability,
      m.handle < (s.exchange.finder p.other).fragments.length) : Single auth nonce s' p := by
  have htake : (s'.peer p.other).capability.take (s'.receivedCapability p) =
      (s.peer p.other).capability.take (s.receivedCapability p) := by
    obtain ⟨more, hmore⟩ := hcapability
    rw [hreceived, ← hmore, List.take_append_of_le_length h.received_le]
  constructor
  · exact hpeer ▸ h.honest
  · exact hpeer ▸ h.interests
  · exact hpeer ▸ h.adds
  · rw [hpeer, hfinder]
    exact h.submitted
  · rw [hpeer, hfinder, hcontrol]
    exact h.established
  · rw [hpeer, hfinder]
    exact h.forwarded
  · rw [hpeer]
    exact h.bound
  · rw [hpeer]
    exact h.signed
  · rw [hpeer]
    exact h.signedReplies
  · rw [hreceived]
    exact h.received_le.trans hcapability.length_le
  · rw [htake, hpeer]
    intro m hm
    refine (h.heard m hm).imp_right fun hans => ?_
    exact hans.mono (hhandles m (List.mem_of_mem_take hm)) hfragments (hfinder ▸ List.prefix_refl _)
  · rw [hpeer]
    intro t ht
    obtain ⟨i, hi, hhandle⟩ := h.readCaps t ht
    exact ⟨i, houtputs.subset hi, hhandle⟩
  · rw [hpeer]
    exact h.failed

/-- **The invariant.** -/
structure Singles (auth : Role → ReadAuthorisation) (nonce : Role → AccessChallenge)
    (s : PaiSession) : Prop where
  causal : Causal nonce s
  accounted : ∀ p, s.Accounted p
  acts : ∀ p, s.exchange.Acts p
  single : ∀ p, Single auth nonce s p

/-! ### What it says about fragments and intersections -/

theorem Singles.interests_of_submitted (h : Singles auth nonce s) {a : ReadAuthorisation}
    (ha : a ∈ (s.exchange.finder p).submitted) :
    a = auth p ∧ (s.peer p).intersections.interests a ≠ none := by
  have hknown := ((h.single p).submitted a).mpr (.inr (.inr ha))
  exact ⟨(h.single p).interests a hknown, hknown⟩

theorem Singles.mem_fragments (h : Singles auth nonce s) {x : LocalFragment}
    (hx : x ∈ (s.exchange.finder p).fragments) : x ∈ fragmentsOf (auth p) ∧
      auth p ∈ (s.exchange.finder p).submitted := by
  obtain ⟨hsubmitted, hmem⟩ := (h.causal.exchange.complete p x).mp hx
  obtain ⟨heq, -⟩ := h.interests_of_submitted hsubmitted
  exact ⟨heq ▸ hmem, heq ▸ hsubmitted⟩

/-- The fragments of the authorisation are submitted together. -/
theorem Singles.mem_of_submitted (h : Singles auth nonce s)
    (hsubmitted : auth p ∈ (s.exchange.finder p).submitted) {x : LocalFragment}
    (hx : x ∈ fragmentsOf (auth p)) : x ∈ (s.exchange.finder p).fragments := by
  have hauth := PaiFinder.authorisation_of_mem_fragmentsOf hx
  refine (h.causal.exchange.complete p x).mpr ⟨?_, ?_⟩
  · rwa [hauth]
  · rwa [hauth]

/-- Behind an intersection are fragments of both sessions. -/
theorem Singles.of_found (h : Singles auth nonce s) {i : PaiIntersection}
    (hi : .newIntersection i ∈ (s.exchange.finder p).outputs) :
    i.authorisation = auth p ∧ (s.peer p).intersections.interests (auth p) ≠ none ∧
      auth p.other ∈ (s.exchange.finder p.other).submitted ∧
      i.handle < (s.exchange.finder p).fragments.length := by
  obtain ⟨⟨x, hx, hauth⟩, t, x', y, hx', hy, -⟩ := h.causal.found p i hi
  obtain ⟨hmem, hsubmitted⟩ := h.mem_fragments (List.mem_of_getElem? hx)
  obtain ⟨-, hother⟩ := h.mem_fragments (List.mem_of_getElem? hy)
  refine ⟨?_, (h.interests_of_submitted hsubmitted).2, hother, (List.getElem?_eq_some_iff.mp hx).1⟩
  rw [hauth]
  exact PaiFinder.authorisation_of_mem_fragmentsOf hmem

theorem Singles.handle_lt (h : Singles auth nonce s) {m : SetupBindReadCapability}
    (hm : m ∈ (s.peer p).capability) : m.handle < (s.exchange.finder p).fragments.length := by
  obtain ⟨a, -, hfound⟩ := (h.causal.ordered p).capability m hm
  exact (h.of_found hfound).2.2.2

omit [PaiScheme] [Meadowcap] in
theorem challengeAt_of_ne {n : Nat} (hn : n ≠ 0) : challengeAt nonce p n =
    .revealed (sessionChallenge nonce p) (sessionChallenge nonce p.other) := by
  rw [← bitwiseComplement_sessionChallenge]
  cases n with
  | zero => exact absurd rfl hn
  | succ n => cases p <;> rfl

theorem Singles.challenge (h : Singles auth nonce s) (hpos : s.receivedControl p ≠ 0) :
    (s.peer p).caps.challenge =
      .revealed (sessionChallenge nonce p) (sessionChallenge nonce p.other) := by
  rw [(h.causal.ordered p).challenge]
  exact challengeAt_of_ne hpos

/-! ### Steps of the session itself -/

omit [ChallengeHash] in
/-- Only the inboxes and the calls have changed. -/
theorem Single.of_inputs (h : Single auth nonce s p) {peer : PaiPeer}
    (inputs : List PaiFinder.Input) (adds : List IntersectionFinder.Input)
    (hexchange : s'.exchange = s.exchange) (hpeer : s'.peer p = peer)
    (hother : s'.peer p.other = s.peer p.other)
    (hsecrets : peer.secrets = (s.peer p).secrets)
    (hinterests : peer.intersections.interests = (s.peer p).intersections.interests)
    (hours : peer.caps.ours = (s.peer p).caps.ours)
    (hpai : peer.paiInbox = (s.peer p).paiInbox ++ inputs)
    (hinbox : peer.intersectionInbox = (s.peer p).intersectionInbox ++ adds)
    (hcontrol : peer.control = (s.peer p).control)
    (hcapability : peer.capability = (s.peer p).capability)
    (hfailed : peer.failed = none)
    (hadds : ∀ l, .addInterests l ∈ adds → ∀ x ∈ l, x.1 = auth p)
    (hsubmits : ∀ a, .submitAuthorisation a ∉ inputs)
    (hestablished : s'.receivedControl p ≠ 0 → s.receivedControl p ≠ 0 ∨ .established ∈ inputs)
    (hreceived : s'.receivedCapability p ≤ (s.peer p.other).capability.length)
    (hheard : ∀ m ∈ (s.peer p.other).capability.take (s'.receivedCapability p),
      m ∈ (s.peer p.other).capability.take (s.receivedCapability p) ∨
        .receivedReadCapForIntersection m.handle ∈ inputs)
    (hreadCaps : ∀ t, .receivedReadCapForIntersection t ∈ inputs →
      ∃ i, .newIntersection i ∈ (s.exchange.finder p.other).outputs ∧ i.handle = t) :
    Single auth nonce s' p := by
  -- the finders are as they were, so what was answered still is
  have hanswered : ∀ {t}, Answered auth s p t → Answered auth s' p t := by
    intro t ht y hy
    rw [hexchange] at hy
    intro x hx hmeets hon
    rw [Found, hexchange]
    exact ht y hy x hx hmeets hon
  constructor
  · rw [hpeer, hsecrets]
    exact h.honest
  · rw [hpeer, hinterests]
    exact h.interests
  · rw [hpeer, hinbox]
    intro l hl
    rcases List.mem_append.mp hl with hl | hl
    · exact h.adds l hl
    · exact hadds l hl
  · intro a
    rw [hpeer, hinterests, hpai, hexchange, h.submitted a, List.mem_append]
    simp only [hsubmits a, or_false]
  · intro hpos
    rw [hpeer, hpai, hexchange, List.mem_append]
    rcases hestablished hpos with hpos | hmem
    · exact (h.established hpos).imp_left .inl
    · exact .inl (.inr hmem)
  · rw [hpeer, hinbox, hcapability, hexchange]
    intro i hi
    exact (h.forwarded i hi).imp_left (List.mem_append_left _)
  · rw [hpeer, hours, hcapability]
    exact h.bound
  · rw [hpeer, hcapability]
    exact h.signed
  · rw [hpeer, hcontrol]
    exact h.signedReplies
  · rw [hother]
    exact hreceived
  · rw [hother, hpeer, hpai]
    intro m hm
    rcases hheard m hm with hm | hm
    · exact (h.heard m hm).imp (List.mem_append_left _) hanswered
    · exact .inl (List.mem_append_right _ hm)
  · rw [hpeer, hpai, hexchange]
    intro t ht
    rcases List.mem_append.mp ht with ht | ht
    · exact h.readCaps t ht
    · exact hreadCaps t ht
  · rw [hpeer]
    exact hfailed

variable [WillowDataModel]

theorem Single.addInterests (h : Single auth nonce s p)
    {interests : List (ReadAuthorisation × List AreaOfInterest)}
    (hallowed : SubmitsOnly auth s (.addInterests p interests))
    (hstep : step s (.addInterests p interests) = some s') : Single auth nonce s' p := by
  obtain ⟨hfailed, rfl⟩ := step_addInterests hstep
  refine h.of_inputs [] [.addInterests interests] rfl
    (Function.update_self _ _ _) (Function.update_of_ne p.other_ne _ _) rfl rfl rfl (by simp) rfl rfl
    rfl hfailed ?_ (by simp) (fun hpos => .inl hpos) h.received_le (fun m hm => .inl hm) (by simp)
  intro l hl
  obtain rfl := IntersectionFinder.Input.addInterests.inj (List.mem_singleton.mp hl)
  exact hallowed

/-- The message has become an input of the `PaiFinder`. -/
structure Pushes (peer peer' : PaiPeer) (input : PaiFinder.Input) : Prop where
  secrets : peer'.secrets = peer.secrets
  interests : peer'.intersections.interests = peer.intersections.interests
  ours : peer'.caps.ours = peer.caps.ours
  paiInbox : peer'.paiInbox = peer.paiInbox ++ [input]
  intersectionInbox : peer'.intersectionInbox = peer.intersectionInbox
  control : peer'.control = peer.control
  capability : peer'.capability = peer.capability
  failed : peer'.failed = peer.failed

omit [WillowDataModel] in
/-- What the other session has sent on the control channel is accepted. -/
theorem Singles.pushes_onControlMessage (h : Singles auth nonce s) {message : ControlMessage}
    (hmessage : (s.peer p.other).control[s.receivedControl p]? = some message) :
    Pushes (s.peer p) ((s.peer p).onControlMessage p message) (inputOf message) := by
  rcases (h.causal.ordered p.other).next_control hmessage with ⟨hzero, rfl⟩ | ⟨hpos, hnot⟩
  · have hchallenge := (h.causal.ordered p).challenge
    rw [hzero] at hchallenge
    have hok := receivedCommitmentReveal_challengeAt hchallenge
    have hpeer : (s.peer p).onControlMessage p (.commitmentReveal (nonce p.other)) =
        ({ s.peer p with intersections := { (s.peer p).intersections with
          caps := { (s.peer p).caps with challenge := challengeAt nonce p 1 } } }).pushPai
          .established := by
      simp only [PaiPeer.onControlMessage, hok]
    rw [hpeer]
    exact ⟨rfl, rfl, rfl, rfl, rfl, rfl, rfl, rfl⟩
  · have hchallenge := h.challenge hpos
    have hrevealed : (s.peer p).caps.challenge.isRevealed = true := by
      rw [hchallenge]
      rfl
    cases message with
    | commitmentReveal n => exact absurd rfl (hnot n)
    | paiRequestSubspaceCapability handle =>
        have hpeer : (s.peer p).onControlMessage p (.paiRequestSubspaceCapability handle) =
            (s.peer p).pushPai (.receivedSubspaceCapRequest handle) := by
          simp [PaiPeer.onControlMessage, hrevealed]
        rw [hpeer]
        exact ⟨rfl, rfl, rfl, rfl, rfl, rfl, rfl, rfl⟩
    | paiReplySubspaceCapability m =>
        obtain ⟨hkey, hverify⟩ := (h.single p.other).signedReplies m (List.mem_of_getElem? hmessage)
        have hok : (s.peer p).caps.verifySubspaceCap m.capability m.signature = .ok () := by
          simp [Capabilities.verifySubspaceCap, hkey, hchallenge, ChallengeState.verify, hverify]
        have hpeer : (s.peer p).onControlMessage p (.paiReplySubspaceCapability m) =
            (s.peer p).challenged.pushPai (.receivedVerifiedSubspaceCapReply m.handle
              m.capability.grantedNamespace) := by
          simp [PaiPeer.onControlMessage, hrevealed, hok]
        rw [hpeer]
        exact ⟨rfl, rfl, rfl, rfl, rfl, rfl, rfl, rfl⟩

theorem Singles.deliverControl (h : Singles auth nonce s)
    (hstep : step s (.deliverControl p) = some s') : Single auth nonce s' p := by
  obtain ⟨message, hfailed, hmessage, rfl⟩ := step_deliverControl hstep
  have hpushes := h.pushes_onControlMessage hmessage
  refine (h.single p).of_inputs [inputOf message] [] rfl
    (Function.update_self _ _ _) (Function.update_of_ne p.other_ne _ _) hpushes.secrets
    hpushes.interests hpushes.ours hpushes.paiInbox (by simp [hpushes.intersectionInbox])
    hpushes.control hpushes.capability (hpushes.failed.trans hfailed) (by simp) ?_ ?_
    (h.single p).received_le (fun m hm => .inl hm) ?_
  · intro a
    cases message <;> simp [inputOf]
  · -- the first message establishes the session
    intro _
    rcases (h.causal.ordered p.other).next_control hmessage with ⟨-, rfl⟩ | ⟨hpos, -⟩
    · exact .inr List.mem_cons_self
    · exact .inl hpos
  · intro t ht
    cases message <;> simp [inputOf] at ht

theorem Singles.deliverCapability (h : Singles auth nonce s)
    (hstep : step s (.deliverCapability p) = some s') : Single auth nonce s' p := by
  obtain ⟨message, hfailed, hmessage, rfl⟩ := step_deliverCapability hstep
  have hs := h.single p
  have hmem := List.mem_of_getElem? hmessage
  obtain ⟨a, -, hfound⟩ := (h.causal.ordered p.other).capability message hmem
  have hpos := (h.causal.revealed_of_found hfound).2
  rw [Role.other_other] at hpos
  obtain ⟨hkey, hverify⟩ := (h.single p.other).signed message hmem
  have hok := Capabilities.validateAndBindTheirs_of_verify (h.challenge hpos) hkey hverify
  have hpeer : (s.peer p).onReadCapability message = ({ (s.peer p).challenged with
      intersections := { (s.peer p).intersections with caps := { (s.peer p).caps with
        theirs := ((s.peer p).caps.theirs.bind message.capability).2 } } }).pushPai
      (.receivedReadCapForIntersection message.handle) := by
    simp only [PaiPeer.onReadCapability, hok]
  have hlt := (List.getElem?_eq_some_iff.mp hmessage).1
  refine hs.of_inputs [.receivedReadCapForIntersection message.handle] [] rfl
    ((Function.update_self _ _ _).trans hpeer) (Function.update_of_ne p.other_ne _ _) rfl rfl rfl rfl
    (by simp [PaiPeer.pushPai, PaiPeer.challenged]) rfl rfl hfailed (by simp) (by simp)
    (fun hne => .inl hne) ?_ ?_ ?_
  · simpa using Nat.succ_le_of_lt hlt
  · intro m hm
    simp only [Function.update_self, List.take_add_one, hmessage, List.mem_append] at hm
    rcases hm with hm | hm
    · exact .inl hm
    · obtain rfl : m = message := by simpa using hm
      exact .inr (by simp)
  · intro t ht
    obtain rfl := PaiFinder.Input.receivedReadCapForIntersection.inj (List.mem_singleton.mp ht)
    exact ⟨_, hfound, rfl⟩

omit [PaiScheme] [ChallengeHash] [WillowDataModel] in
theorem Honest.signCapability {secrets : SecretStorage} {a : ReadAuthorisation}
    (h : Honest secrets a) {c : Capabilities} {theirs : AccessChallenge}
    (hc : c.challenge = .revealed (sessionChallenge nonce p) theirs) (handle : Nat) :
    ∃ message, c.signCapability secrets handle a.readCap = .ok message ∧
      message.capability = a.readCap ∧
      SignedBy nonce p message.capability.receiver message.signature := by
  obtain ⟨signature, hsign, hverify⟩ := Capabilities.signCapability_of_holds hc h.readCap handle
  exact ⟨_, hsign, rfl, h.readCap.1, hverify⟩

omit [ChallengeHash] [WillowDataModel] in
/-- The session has submitted `new` and sent the read capabilities `sent`. -/
theorem Single.of_taken (h : Single auth nonce s p) {peer : PaiPeer}
    (new : List ReadAuthorisation) (sent : List SetupBindReadCapability)
    (hsecrets : peer.secrets = (s.peer p).secrets)
    (hinterests : ∀ a, peer.intersections.interests a ≠ none ↔
      (s.peer p).intersections.interests a ≠ none ∨ a ∈ new)
    (hnew : ∀ a ∈ new, a = auth p)
    (hinbox : peer.intersectionInbox ⊆ (s.peer p).intersectionInbox)
    (hpai : peer.paiInbox = (s.peer p).paiInbox ++ new.map .submitAuthorisation)
    (hcontrol : peer.control = (s.peer p).control)
    (hcapability : peer.capability = (s.peer p).capability ++ sent)
    (hsigned : ∀ m ∈ sent, SignedBy nonce p m.capability.receiver m.signature)
    (hbound : ∀ k cap, peer.caps.ours.tryGet k = some cap →
      (∃ k', (s.peer p).caps.ours.tryGet k' = some cap) ∨ ∃ m ∈ sent, m.capability = cap)
    (hforwarded : ∀ i : PaiIntersection,
      .paiIntersection i.authorisation i.handle ∈ (s.peer p).intersectionInbox →
      .paiIntersection i.authorisation i.handle ∈ peer.intersectionInbox ∨
        ∃ m ∈ (s.peer p).capability ++ sent, m.capability = i.authorisation.readCap)
    (hfailed : peer.failed = none) :
    Single auth nonce { s with peer := Function.update s.peer p peer } p := by
  have hself : Function.update s.peer p peer p = peer := Function.update_self _ _ _
  have hother : Function.update s.peer p peer p.other = s.peer p.other :=
    Function.update_of_ne p.other_ne _ _
  -- what was sent before is sent still
  have hleft : ∀ cap, (∃ m ∈ (s.peer p).capability, m.capability = cap) →
      ∃ m ∈ (s.peer p).capability ++ sent, m.capability = cap := by
    rintro cap ⟨m, hm, hcap⟩
    exact ⟨m, List.mem_append_left _ hm, hcap⟩
  constructor <;> simp only [hself, hother]
  · rw [hsecrets]
    exact h.honest
  · intro a ha
    rcases (hinterests a).mp ha with ha | ha
    · exact h.interests a ha
    · exact hnew a ha
  · exact fun l hl => h.adds l (hinbox hl)
  · intro a
    rw [hinterests, h.submitted a, hpai]
    simp only [List.mem_append, List.mem_map, PaiFinder.Input.submitAuthorisation.injEq,
      exists_eq_right]
    tauto
  · intro hpos
    rw [hpai]
    exact (h.established hpos).imp_left (List.mem_append_left _)
  · intro i hi
    rw [hcapability]
    rcases h.forwarded i hi with hmem | hsent
    · exact hforwarded i hmem
    · exact .inr (hleft _ hsent)
  · intro k cap hk
    rw [hcapability]
    rcases hbound k cap hk with ⟨k', hk'⟩ | ⟨m, hm, hcap⟩
    · exact hleft _ (h.bound k' cap hk')
    · exact ⟨m, List.mem_append_right _ hm, hcap⟩
  · intro m hm
    rw [hcapability] at hm
    rcases List.mem_append.mp hm with hm | hm
    · exact h.signed m hm
    · exact hsigned m hm
  · rw [hcontrol]
    exact h.signedReplies
  · exact h.received_le
  · intro m hm
    rw [hpai]
    exact (h.heard m hm).imp_left (List.mem_append_left _)
  · intro t ht
    refine h.readCaps t ?_
    rw [hpai] at ht
    simpa using ht
  · exact hfailed

/-- An intersection leads to a read capability, the first time. -/
theorem Singles.takeIntersection (h : Singles auth nonce s)
    (hstep : step s (.takeIntersection p) = some s') : Single auth nonce s' p := by
  obtain ⟨peer, hfailed, hpeer, rfl⟩ := step_takeIntersection hstep
  obtain ⟨input, rest, hinbox, htakes⟩ := PaiPeer.takes_of_takeIntersection hfailed hpeer
  have hs := h.single p
  have hrest : rest ⊆ (s.peer p).intersectionInbox := by
    rw [hinbox]
    exact List.subset_cons_self _ _
  -- an intersection that is not taken now is still there
  have hkept : ∀ i : PaiIntersection, input ≠ .paiIntersection i.authorisation i.handle →
      .paiIntersection i.authorisation i.handle ∈ (s.peer p).intersectionInbox →
      .paiIntersection i.authorisation i.handle ∈ rest := by
    intro i hne hmem
    rw [hinbox, List.mem_cons] at hmem
    exact hmem.resolve_left fun heq => hne heq.symm
  cases htakes with
  | @interests l _ finder new hadds hnew =>
      refine hs.of_taken new [] rfl (fun a => ?_) (fun a ha => ?_) hrest rfl rfl
        (by simp) (by simp) (fun k cap hk => .inl ⟨k, ?_⟩)
        (fun i hi => .inl (hkept i (by simp) hi)) hs.failed
      · rw [ne_eq, hadds.interests]
        tauto
      · obtain ⟨-, aois, hmem⟩ := (hnew a).mp ha
        exact hs.adds l (hinbox ▸ List.mem_cons_self) _ hmem
      · rwa [PaiPeer.caps, hadds.caps] at hk
  | @areaOfInterest _ _ _ finder hadds =>
      refine hs.of_taken [] [] rfl (fun a => ?_) (by simp) hrest (by simp) rfl
        (by simp) (by simp) (fun k cap hk => .inl ⟨k, ?_⟩)
        (fun i hi => .inl (hkept i (by simp) hi)) hs.failed
      · simp [hadds.interests]
      · rwa [PaiPeer.caps, hadds.caps] at hk
  | @unknown a k _ hunknown =>
      have hfound := (h.causal.ordered p).inbox a k (hinbox ▸ List.mem_cons_self)
      obtain ⟨heq, hknown, -⟩ := h.of_found hfound
      have heq : a = auth p := heq
      exact absurd (heq ▸ hunknown) hknown
  | @again a k _ finder hbound hadds =>
      refine hs.of_taken [] [] rfl (fun b => ?_) (by simp) hrest (by simp) rfl
        (by simp) (by simp) (fun k cap hk => .inl ⟨k, ?_⟩) (fun i hi => ?_) hs.failed
      · simp [hadds.interests]
      · rwa [PaiPeer.caps, hadds.caps] at hk
      · by_cases heq : IntersectionFinder.Input.paiIntersection a k =
            .paiIntersection i.authorisation i.handle
        · obtain ⟨rfl, -⟩ := IntersectionFinder.Input.paiIntersection.inj heq
          obtain ⟨j, hj⟩ := hbound
          rw [List.append_nil]
          exact .inr (hs.bound j _ hj)
        · exact .inl (hkept i heq hi)
  | @first a k _ finder message hbinds hsign =>
      have hfound := (h.causal.ordered p).inbox a k (hinbox ▸ List.mem_cons_self)
      have hpos := (h.causal.revealed_of_found hfound).1
      have heq : a = auth p := (h.of_found hfound).1
      obtain ⟨message', hsign', hcap, hsigned⟩ :=
        hs.honest.signCapability (h.challenge hpos) k
      obtain rfl : message' = message := by
        rw [heq, hsign'] at hsign
        exact Except.ok.inj hsign
      refine hs.of_taken [] [message'] rfl (fun b => ?_) (by simp) hrest (by simp)
        rfl rfl (by simpa using hsigned) (fun j cap hj => ?_) (fun i hi => ?_) hs.failed
      · simp [hbinds.interests]
      · rw [PaiPeer.caps, hbinds.caps] at hj
        by_cases hnext : j = (s.peer p).intersections.caps.ours.nextHandle
        · rw [hnext, ResourceMap.tryGet_bind_self] at hj
          obtain rfl := Option.some.inj hj
          exact .inr ⟨message', by simp, by rw [hcap, heq]⟩
        · rw [ResourceMap.tryGet_bind_of_ne hnext] at hj
          exact .inl ⟨j, hj⟩
      · by_cases heq' : IntersectionFinder.Input.paiIntersection a k =
            .paiIntersection i.authorisation i.handle
        · obtain ⟨rfl, -⟩ := IntersectionFinder.Input.paiIntersection.inj heq'
          exact .inr ⟨message', by simp, by rw [hcap, heq]⟩
        · exact .inl (hkept i heq' hi)
  | @unsigned a k _ finder e hbinds hsign =>
      have hfound := (h.causal.ordered p).inbox a k (hinbox ▸ List.mem_cons_self)
      have hpos := (h.causal.revealed_of_found hfound).1
      have heq : a = auth p := (h.of_found hfound).1
      obtain ⟨message', hsign', -, -⟩ := hs.honest.signCapability (h.challenge hpos) k
      rw [heq, hsign'] at hsign
      cases hsign

/-! ### The finder returns from a call -/

omit [PaiScheme] [ChallengeHash] [WillowDataModel] in
theorem Honest.signSubspaceCapability {secrets : SecretStorage} {a : ReadAuthorisation}
    (h : Honest secrets a) {c : Capabilities} {theirs : AccessChallenge}
    (hc : c.challenge = .revealed (sessionChallenge nonce p) theirs) {cap : SubspaceCapability}
    (hcap : a.subspaceCap = some cap) (handle : Nat) :
    ∃ message, c.signSubspaceCapability secrets cap handle = .ok message ∧
      message.handle = handle ∧ message.capability = cap ∧
      SignedBy nonce p cap.receiver message.signature := by
  obtain ⟨hkey, hsigns⟩ := h.subspaceCap cap hcap
  obtain ⟨signature, hsign, hverify⟩ := hsigns (sessionChallenge nonce p)
  refine ⟨⟨handle, cap, signature⟩, ?_, rfl, rfl, hkey, hverify⟩
  simp [Capabilities.signSubspaceCapability, hc, ChallengeState.signable, hsign]

omit [WillowDataModel] in
/-- A subspace capability that is asked for can be signed. -/
theorem Singles.sign_of_explained (h : Singles auth nonce s) {a : PaiExchange.Action}
    {handle : Nat} {cap : SubspaceCapability}
    (he : PaiExchange.Explained s.exchange p a (.signAndSendSubspaceCap handle cap)) :
    ∃ message, (s.peer p).caps.signSubspaceCapability (s.peer p).secrets cap handle = .ok message ∧
      message.handle = handle ∧ message.capability = cap ∧
      SignedBy nonce p cap.receiver message.signature := by
  cases he with
  | @subspaceCap _ _ o x y hasked =>
      have hx := List.mem_of_getElem? hasked.own
      have hpos : s.receivedControl p ≠ 0 :=
        h.causal.revealed_of_fragments fun hnil => by simp [hnil] at hx
      have hauth := PaiFinder.authorisation_of_mem_fragmentsOf (h.mem_fragments hx).1
      have hcap := hasked.capability
      rw [hauth] at hcap
      exact (h.single p).honest.signSubspaceCapability (h.challenge hpos) hcap handle

omit [WillowDataModel] in
/-- Everything that the finder puts out is processed. -/
theorem Singles.processed (hlaw : PaiScheme.Lawful) (h : Singles auth nonce s)
    {a : PaiExchange.Action} (hex : s.exchange.step a = some s'.exchange) (hp : a.peer = p)
    {inbox : List PaiFinder.Input}
    (hs' : s' = { s with
      exchange := s'.exchange
      peer := Function.update s.peer p
        (s.afterPai p s'.exchange { s.peer p with paiInbox := inbox }) })
    (hfailed : (s.peer p).failed = none) :
    ∃ new, (s'.exchange.finder p).outputs = (s.exchange.finder p).outputs ++ new ∧
      (∀ o ∈ new, PaiExchange.Explained s.exchange p a o) ∧
      Processed { s.peer p with paiInbox := inbox } (s'.peer p) new ∧
      (s'.peer p).failed = (s'.exchange.failed p).map .inr := by
  obtain ⟨-, new, hnew, hexplained⟩ := h.causal.exchange.explained hlaw hex
  rw [hp] at hnew hexplained
  obtain ⟨done, hpre, hdone, hcases⟩ :=
    @afterPai_spec _ _ _ _ { s.peer p with paiInbox := inbox } _ hfailed hnew
  have hpeer : s'.peer p = s.afterPai p s'.exchange { s.peer p with paiInbox := inbox } := by
    rw [hs']
    exact Function.update_self _ _ _
  rw [← hpeer] at hdone hcases
  rcases hcases with ⟨hfail, rfl⟩ | ⟨e, -, handle, cap, hmem, hsign⟩
  · exact ⟨done, hnew, hexplained, hdone, hfail⟩
  · obtain ⟨message, hok, -⟩ := h.sign_of_explained (hexplained _ hmem)
    have hsign : (s.peer p).caps.signSubspaceCapability (s.peer p).secrets cap handle =
      .error e := hsign
    rw [hok] at hsign
    cases hsign

omit [WillowDataModel] in
/-- The finder has put out `new` without an error. -/
theorem Singles.of_processed (h : Singles auth nonce s) {a : PaiExchange.Action}
    {inbox : List PaiFinder.Input} {new : List PaiFinder.Output}
    (houtputs : (s'.exchange.finder p).outputs = (s.exchange.finder p).outputs ++ new)
    (hexplained : ∀ o ∈ new, PaiExchange.Explained s.exchange p a o)
    (hprocessed : Processed { s.peer p with paiInbox := inbox } (s'.peer p) new)
    (hfailed : (s'.peer p).failed = none) (hother : s'.peer p.other = s.peer p.other)
    (hfinder : s'.exchange.finder p.other = s.exchange.finder p.other)
    (hcontrol : s'.receivedControl = s.receivedControl)
    (hreceived : s'.receivedCapability = s.receivedCapability)
    (hinbox : inbox ⊆ (s.peer p).paiInbox)
    (hsubmitted : ∀ a, (s.peer p).intersections.interests a ≠ none ↔
      .submitAuthorisation a ∈ inbox ∨
        a ∈ (s'.exchange.finder p).pending.getD ∅ ∨ a ∈ (s'.exchange.finder p).submitted)
    (hestablished : .established ∈ (s.peer p).paiInbox ∨ (s.exchange.finder p).pending = none →
      .established ∈ inbox ∨ (s'.exchange.finder p).pending = none)
    (hheard : ∀ t, .receivedReadCapForIntersection t ∈ (s.peer p).paiInbox →
      .receivedReadCapForIntersection t ∈ inbox ∨ Answered auth s' p t) :
    Single auth nonce s' p := by
  have hs := h.single p
  have hgrow : (s.exchange.finder p).outputs <+: (s'.exchange.finder p).outputs := by
    rw [houtputs]
    exact List.prefix_append _ _
  constructor
  · rw [hprocessed.secrets]
    exact hs.honest
  · rw [hprocessed.intersections]
    exact hs.interests
  · intro l hl
    rw [hprocessed.intersectionInbox] at hl
    rcases List.mem_append.mp hl with hl | hl
    · exact hs.adds l hl
    · obtain ⟨o, -, ho⟩ := List.mem_filterMap.mp hl
      split at ho <;> cases ho
  · rw [hprocessed.intersections, hprocessed.paiInbox]
    exact hsubmitted
  · rw [hcontrol, hprocessed.paiInbox]
    exact fun hpos => hestablished (hs.established hpos)
  · rw [hprocessed.intersectionInbox, hprocessed.capability, houtputs]
    intro i hi
    -- what is new is in the outbox for the other channel
    rcases List.mem_append.mp hi with hi | hi
    · exact (hs.forwarded i hi).imp_left (List.mem_append_left _)
    · exact .inl (List.mem_append_right _ (List.mem_filterMap.mpr ⟨_, hi, rfl⟩))
  · rw [PaiPeer.caps, hprocessed.intersections, hprocessed.capability]
    exact hs.bound
  · rw [hprocessed.capability]
    exact hs.signed
  · intro m hm
    rw [hprocessed.control] at hm
    rcases List.mem_append.mp hm with hm | hm
    · exact hs.signedReplies m hm
    · obtain ⟨o, ho, hmessage⟩ := List.mem_filterMap.mp hm
      cases o with
      | sendMessage m => cases hmessage
      | requestSubspaceCapability handle => cases hmessage
      | newIntersection i => cases hmessage
      | signAndSendSubspaceCap handle cap =>
          -- the only output that becomes a reply
          obtain ⟨message, hok, -, hcap, hsigned⟩ := h.sign_of_explained (hexplained _ ho)
          have hok : PaiPeer.controlMessage { s.peer p with paiInbox := inbox }
              (.signAndSendSubspaceCap handle cap) =
              some (.paiReplySubspaceCapability message) := by
            unfold PaiPeer.controlMessage
            dsimp only [PaiPeer.caps] at hok ⊢
            rw [hok]
          rw [hok] at hmessage
          obtain rfl : message = m := by simpa using hmessage
          rw [hcap]
          exact hsigned
  · rw [hreceived, hother]
    exact hs.received_le
  · rw [hreceived, hother, hprocessed.paiInbox]
    intro m hm
    -- still in the inbox, or answered before this input
    rcases hs.heard m hm with hmem | hans
    · exact hheard _ hmem
    · have hlt := h.handle_lt (List.mem_of_mem_take hm)
      exact .inr (hans.mono hlt (hfinder ▸ List.prefix_refl _) hgrow)
  · rw [hprocessed.paiInbox, hfinder]
    exact fun t ht => hs.readCaps t (hinbox ht)
  · exact hfailed

/-- No message of the intersection channel is lost. -/
theorem Singles.deliverIntersection (hlaw : PaiScheme.Lawful) (h : Singles auth nonce s)
    {order : List Nat} (hstep : step s (.deliverIntersection p order) = some s') :
    Single auth nonce s' p := by
  obtain ⟨hfailed, hex, hs'⟩ := step_deliverIntersection hstep
  obtain ⟨⟨message, handle, sent, ms, hd⟩, -⟩ := h.causal.exchange.deliver hlaw hex
  have hc := hd.checked
  obtain ⟨hother, -, -⟩ := other_of_step hstep
  obtain ⟨new, hnew, hexplained, hprocessed, hfail⟩ :=
    @Singles.processed _ _ _ _ _ _ _ p hlaw h _ hex rfl (s.peer p).paiInbox hs' hfailed
  refine h.of_processed hnew hexplained hprocessed ?_ hother hd.other (by rw [hs']) (by rw [hs'])
    (List.Subset.refl _) ?_ ?_ (fun t ht => .inl ht)
  · -- the exchange has failed neither
    obtain ⟨_, hok, -⟩ := PaiExchange.step_deliver hex
    rw [hfail, hd.failed, hok]
    rfl
  · rw [hc.pending, hc.submitted]
    exact (h.single p).submitted
  · rw [hc.pending]
    exact id

omit [Meadowcap] [ChallengeHash] [WillowDataModel] in
/-- What an input does to the authorisations. -/
theorem submitted_of_reacts {f f' : PaiFinder} {theirs : List LocalFragment} {n : Nat}
    {order : List Nat} {input : PaiFinder.Input} {res : Except PaiFinder.Failure Unit}
    (h : PaiFinder.Reacts f theirs n order input res f') (a : ReadAuthorisation) :
    (a ∈ f'.pending.getD ∅ ∨ a ∈ f'.submitted) ↔
      input = .submitAuthorisation a ∨ a ∈ f.pending.getD ∅ ∨ a ∈ f.submitted := by
  cases h with
  | @queued b pending hpending =>
      simp only [hpending, Option.getD_some, Finset.mem_insert,
        PaiFinder.Input.submitAuthorisation.injEq]
      tauto
  | @submitted b _ _ hpending hnew _ hsubmitted =>
      simp only [hnew.pending, hpending, hsubmitted, Option.getD_none, Finset.notMem_empty,
        false_or, Finset.mem_insert, PaiFinder.Input.submitAuthorisation.injEq]
      tauto
  | established hpending hnew _ hsubmitted =>
      simp only [hnew.pending, hpending, hsubmitted, Option.getD_none, Option.getD_some,
        Finset.notMem_empty, false_or, Finset.mem_union, reduceCtorEq]
      tauto
  | establishedAgain _ => simp
  | request _ => simp [PaiFinder.outAll]
  | requestMissing _ => simp
  | readCap _ => simp [PaiFinder.outAll]
  | readCapMissing _ => simp
  | reply _ _ _ => simp [PaiFinder.out]
  | replyWrongNamespace _ _ _ => simp
  | replyInvalid _ => simp

omit [Meadowcap] [ChallengeHash] [WillowDataModel] in
theorem established_of_reacts {f f' : PaiFinder} {theirs : List LocalFragment} {n : Nat}
    {order : List Nat} {input : PaiFinder.Input} {res : Except PaiFinder.Failure Unit}
    (h : PaiFinder.Reacts f theirs n order input res f')
    (hor : input = .established ∨ f.pending = none) : f'.pending = none := by
  cases h with
  | queued hpending => simp [hpending] at hor
  | submitted hpending hnew _ _ => rw [hnew.pending, hpending]
  | established _ hnew _ _ => exact hnew.pending
  | establishedAgain hpending => exact hpending
  | request _ => exact hor.resolve_left (by simp)
  | requestMissing _ => exact hor.resolve_left (by simp)
  | readCap _ => exact hor.resolve_left (by simp)
  | readCapMissing _ => exact hor.resolve_left (by simp)
  | reply _ _ _ => exact hor.resolve_left (by simp)
  | replyWrongNamespace _ _ _ => exact hor.resolve_left (by simp)
  | replyInvalid _ => exact hor.resolve_left (by simp)

omit [WillowDataModel] in
/-- A handle that was asked about is known to the other finder. -/
theorem Singles.known_of_requested (h : Singles auth nonce s) {o : Nat}
    (ho : o ∈ (s.exchange.finder p).requestedSubspaceCapHandles) :
    o < (s.exchange.known p.other).length := by
  obtain ⟨-, t, ht⟩ := h.causal.exchange.requested p o ho
  have hlt := ((h.causal.exchange.acted p o t).mp ht).1
  exact hlt.trans_le (h.causal.exchange.replied_le_known p)

omit [WillowDataModel] in
/-- The finder takes an input without an error. -/
theorem Singles.reacts_ok (h : Singles auth nonce s) {order : List Nat} {input : PaiFinder.Input}
    {rest : List PaiFinder.Input} (hinbox : (s.peer p).paiInbox = input :: rest)
    {res : Except PaiFinder.Failure Unit} {f' : PaiFinder}
    (hreacts : PaiFinder.Reacts (s.exchange.finder p) (s.exchange.known p) (s.exchange.replied p)
      order input res f') : res = .ok () := by
  have hmissing : ∀ {t}, t < (s.exchange.known p).length → (s.exchange.known p)[t]? ≠ none := by
    intro t hlt hnone
    rw [List.getElem?_eq_none_iff] at hnone
    omega
  have hreply : ∀ {o ns}, input = .receivedVerifiedSubspaceCapReply o ns →
      (o, ns) ∈ s.openReplies p := by
    rintro o ns rfl
    rw [openReplies, hinbox]
    exact List.mem_append_right _ List.mem_cons_self
  cases hreacts with
  | queued _ => rfl
  | submitted _ _ _ _ => rfl
  | established _ _ _ _ => rfl
  | establishedAgain _ => rfl
  | request _ => rfl
  | readCap _ => rfl
  | reply _ _ _ => rfl
  | @requestMissing t hy =>
      have hopen : t ∈ s.openHandles p.other := by
        refine List.mem_append_left _ (List.mem_append_right _ ?_)
        rw [Role.other_other, hinbox]
        exact List.mem_cons_self
      have hlt := h.known_of_requested ((h.accounted p.other).requested t hopen)
      rw [Role.other_other] at hlt
      exact absurd hy (hmissing hlt)
  | @readCapMissing t hy =>
      obtain ⟨i, hi, rfl⟩ := (h.single p).readCaps t (hinbox ▸ List.mem_cons_self)
      have hlt := h.causal.exchange.known_of_found (h.acts p.other) hi
      rw [Role.other_other] at hlt
      exact absurd hy (hmissing hlt)
  | @replyWrongNamespace o ns x hx _ hns =>
      obtain ⟨x', hx', hns'⟩ := (h.accounted p).replies _ (hreply rfl)
      obtain rfl : x = x' := Option.some.inj (hx.symm.trans hx')
      exact absurd hns' hns
  | @replyInvalid o ns hnot =>
      refine absurd ((h.accounted p).requested o ?_) hnot
      exact List.mem_append_right _ (List.mem_map.mpr ⟨_, hreply rfl, rfl⟩)

omit [WillowDataModel] in
/-- **A read capability is answered** when the fragments were replied to. -/
theorem Singles.answered_of_readCap (h : Singles auth nonce s) {order : List Nat} {t : Nat}
    {rest : List PaiFinder.Input}
    (hinbox : (s.peer p).paiInbox = .receivedReadCapForIntersection t :: rest)
    (hcovers : (s.exchange.finder p).Covers order)
    (hreacts : PaiFinder.Reacts (s.exchange.finder p) (s.exchange.known p) (s.exchange.replied p)
      order (.receivedReadCapForIntersection t) (.ok ()) (s'.exchange.finder p))
    (hother : s'.exchange.finder p.other = s.exchange.finder p.other)
    (htimely : ∀ y ∈ (s.exchange.finder p.other).fragments[t]?,
      ∀ o < (s.exchange.finder p).fragments.length,
      ∀ x ∈ (s.exchange.finder p).fragments[o]?, x.Meets y →
        x.info.onIntersection = .replyReadCap → o < s.exchange.replied p) :
    Answered auth s' p t := by
  intro y hy x hx hmeets hon
  rw [hother] at hy
  obtain ⟨i, hi, rfl⟩ := (h.single p).readCaps t (hinbox ▸ List.mem_cons_self)
  have hsubmitted := (h.of_found hi).2.2.1
  rw [Role.other_other] at hsubmitted
  obtain ⟨o, ho⟩ := List.mem_iff_getElem?.mp (h.mem_of_submitted hsubmitted hx)
  have hlen := (List.getElem?_eq_some_iff.mp ho).1
  have hlt := htimely y hy o hlen x ho hmeets hon
  generalize hf : s'.exchange.finder p = f' at hreacts
  cases hreacts with
  | @readCap _ y' hy' =>
      have heq := getElem?_of_isPrefix (PaiExchange.known_isPrefix s.exchange p) hy'
      obtain rfl : y' = y := Option.some.inj (heq.symm.trans hy)
      refine ⟨o, ?_⟩
      rw [hf]
      refine List.mem_append_right _ (List.mem_map.mpr ⟨⟨auth p, o⟩, ?_, rfl⟩)
      have horder := (h.causal.exchange.knows p).mem_order_own hcovers ho
      refine List.mem_filterMap.mpr ⟨o, horder, ?_⟩
      unfold PaiFinder.replyTo
      rw [ho]
      have hauth := PaiFinder.authorisation_of_mem_fragmentsOf hx
      simp only [hlt, hmeets, hon, and_self, if_true]
      rw [← hauth]
      rfl

theorem Singles.takePai (hlaw : PaiScheme.Lawful) (h : Singles auth nonce s) {order : List Nat}
    {drained : List ReadAuthorisation} (htimely : Timely s (.takePai p order drained))
    (hstep : step s (.takePai p order drained) = some s') : Single auth nonce s' p := by
  obtain ⟨input, rest, hfailed, hinbox, hex, hs'⟩ := step_takePai hstep
  have hreacts := (h.causal.exchange.input hlaw hex).1
  have hcovers := (PaiExchange.step_input hex).2.1
  have hok := h.reacts_ok hinbox hreacts
  rw [hok] at hreacts
  obtain ⟨hother, -, -⟩ := other_of_step hstep
  have hfinder := (PaiExchange.finder_other_of_step hex).1
  obtain ⟨new, hnew, hexplained, hprocessed, hfail⟩ := h.processed (p := p) hlaw hex rfl hs' hfailed
  refine h.of_processed hnew hexplained hprocessed ?_ hother hfinder (by rw [hs']) (by rw [hs'])
    (hinbox ▸ List.subset_cons_self _ _) (fun a => ?_) (fun hor => ?_) (fun t ht => ?_)
  · rw [hfail, failed_of_step_input hex, hok]
    rfl
  · rw [submitted_of_reacts hreacts a, (h.single p).submitted a, hinbox, List.mem_cons]
    tauto
  · rw [hinbox, List.mem_cons] at hor
    rcases hor with (heq | hmem) | hpending
    · exact .inr (established_of_reacts hreacts (.inl heq.symm))
    · exact .inl hmem
    · exact .inr (established_of_reacts hreacts (.inr hpending))
  · rw [hinbox, List.mem_cons] at ht
    rcases ht with rfl | ht
    · simp only [Timely, hinbox] at htimely
      exact .inr (h.answered_of_readCap hinbox hcovers hreacts hfinder htimely)
    · exact .inl ht

/-! ### Every run -/

/-- Read capabilities are only added. -/
theorem Singles.capability_isPrefix (hlaw : PaiScheme.Lawful) (h : Singles auth nonce s)
    {a : Action} (hstep : PaiSession.step s a = some s') :
    (s.peer a.peer).capability <+: (s'.peer a.peer).capability := by
  cases a with
  | addInterests q interests =>
      obtain ⟨-, rfl⟩ := step_addInterests hstep
      simp [Action.peer]
  | deliverControl q =>
      obtain ⟨message, -, -, rfl⟩ := step_deliverControl hstep
      have hsame : ((s.peer q).onControlMessage q message).capability =
          (s.peer q).capability := by
        cases message with
        | commitmentReveal n =>
            simp only [PaiPeer.onControlMessage]
            split <;> rfl
        | paiRequestSubspaceCapability handle =>
            simp only [PaiPeer.onControlMessage]
            split <;> rfl
        | paiReplySubspaceCapability m =>
            simp only [PaiPeer.onControlMessage]
            split
            · rfl
            · split <;> rfl
      simp [Action.peer, hsame]
  | deliverCapability q =>
      obtain ⟨message, -, -, rfl⟩ := step_deliverCapability hstep
      have hsame : ((s.peer q).onReadCapability message).capability = (s.peer q).capability := by
        simp only [PaiPeer.onReadCapability]
        split <;> rfl
      simp [Action.peer, hsame]
  | takePai q order drained =>
      obtain ⟨input, rest, hfailed, -, hex, hs'⟩ := step_takePai hstep
      obtain ⟨new, -, -, hprocessed, -⟩ := h.processed (p := q) hlaw hex rfl hs' hfailed
      show (s.peer q).capability <+: (s'.peer q).capability
      rw [hprocessed.capability]
  | deliverIntersection q order =>
      obtain ⟨hfailed, hex, hs'⟩ := step_deliverIntersection hstep
      obtain ⟨new, -, -, hprocessed, -⟩ :=
        @Singles.processed _ _ _ _ _ _ _ q hlaw h _ hex rfl (s.peer q).paiInbox hs' hfailed
      show (s.peer q).capability <+: (s'.peer q).capability
      rw [hprocessed.capability]
  | takeIntersection q =>
      obtain ⟨peer, hfailed, hpeer, rfl⟩ := step_takeIntersection hstep
      obtain ⟨input, rest, -, htakes⟩ := PaiPeer.takes_of_takeIntersection hfailed hpeer
      show (s.peer q).capability <+: (Function.update s.peer q peer q).capability
      rw [Function.update_self]
      cases htakes with
      | interests _ _ => exact List.prefix_refl _
      | areaOfInterest _ => exact List.prefix_refl _
      | unknown _ => exact List.prefix_refl _
      | again _ _ => exact List.prefix_refl _
      | first _ _ => exact List.prefix_append _ _
      | unsigned _ _ => exact List.prefix_refl _

/-- What is allowed in a step: one authorisation each, in time, and requests name the own
handle. -/
structure Orderly (auth : Role → ReadAuthorisation) (s : PaiSession) (a : Action) : Prop where
  submits : SubmitsOnly auth s a
  timely : Timely s a
  names : NamesOwnHandle s a

/-- **One step** keeps the invariant. -/
theorem Singles.step (hlaw : PaiScheme.Lawful) (h : Singles auth nonce s) {a : Action}
    (hallowed : Orderly auth s a) (hstep : PaiSession.step s a = some s') :
    Singles auth nonce s' := by
  have hinv := h.causal.exchange
  obtain ⟨hpeer, hcontrol, hreceived⟩ := other_of_step hstep
  obtain ⟨-, houtputs, -⟩ := h.causal.found_step hlaw hstep
  have hexchange : (∀ p, s'.exchange.Acts p) ∧
      s'.exchange.finder a.peer.other = s.exchange.finder a.peer.other ∧
      ∀ p, (s.exchange.finder p).fragments <+: (s'.exchange.finder p).fragments := by
    rcases exchange_of_step hstep with heq | ⟨a', hcauses, hex⟩
    · rw [heq]
      exact ⟨h.acts, rfl, fun p => List.prefix_refl _⟩
    · refine ⟨PaiExchange.Acts.step hlaw hinv h.acts hex, ?_, hinv.fragments_isPrefix hlaw hex⟩
      rw [← hcauses.peer]
      exact (PaiExchange.finder_other_of_step hex).1
  obtain ⟨hacts, hfinder, hfragments⟩ := hexchange
  refine ⟨h.causal.step hlaw hstep, accounted_step hlaw hinv h.accounted hallowed.names hstep,
    hacts, Role.forall_of a.peer ?_ ?_⟩
  · cases a with
    | addInterests p interests => exact (h.single p).addInterests hallowed.submits hstep
    | deliverControl p => exact h.deliverControl hstep
    | deliverCapability p => exact h.deliverCapability hstep
    | takePai p order drained => exact h.takePai hlaw hallowed.timely hstep
    | deliverIntersection p order => exact h.deliverIntersection hlaw hstep
    | takeIntersection p => exact h.takeIntersection hstep
  · have hcapability := h.capability_isPrefix hlaw hstep
    refine (h.single a.peer.other).of_other hpeer hfinder hcontrol hreceived ?_ ?_ ?_ ?_
    · rwa [Role.other_other]
    · exact hfragments _
    · exact houtputs _
    · intro m hm
      exact h.handle_lt hm

theorem singles_of_reachable (hlaw : PaiScheme.Lawful) {scalar : Role → PsiScalar}
    {secrets : Role → SecretStorage} (hhonest : ∀ p, Honest (secrets p) (auth p))
    (hs : Transition.Reachable PaiSession.step (Orderly auth) (start scalar nonce secrets) s) :
    Singles auth nonce s := by
  refine hs.invariant ?_ fun s a s' h hallowed hstep => h.step hlaw hallowed hstep
  exact ⟨causal_start scalar nonce secrets, accounted_start scalar nonce secrets,
    PaiExchange.acts_start scalar, single_start hhonest⟩

omit [WillowDataModel] in
/-- With one authorisation each, read capabilities are for fragments that one of the two
most specific ones is equal to. -/
theorem Singles.namesMostSpecific (hlaw : PaiScheme.Lawful) (h : Singles auth nonce s)
    (hsound : s.Sound) (a : Action) : NamesMostSpecific s a := by
  cases a with
  | takePai p order drained =>
      simp only [NamesMostSpecific]
      split
      · rename_i t rest hinbox
        intro y hy hless o _ x hx hmeets
        obtain ⟨j, hj, rfl⟩ := (h.single p).readCaps t (hinbox ▸ List.mem_cons_self)
        obtain ⟨y', t', z, hy', -, hz, hmeets', hspecific⟩ := hsound p.other j hj
        obtain rfl : y' = y := Option.some.inj (hy'.symm.trans hy)
        rw [Role.other_other] at hz
        rw [hless] at hspecific
        have hzspecific := hspecific.resolve_left (by simp)
        -- our fragment is equal to our most specific one
        have hfragment : x.fragment = z.fragment := hmeets.1.trans hmeets'.1
        obtain ⟨-, q, -, hxq, hxparts⟩ := (PaiFinder.mem_fragmentsOf hlaw).mp
          (h.mem_fragments (List.mem_of_getElem? hx)).1
        obtain ⟨-, r, -, hzr, hzparts⟩ := (PaiFinder.mem_fragmentsOf hlaw).mp
          (h.mem_fragments (List.mem_of_getElem? hz)).1
        have hpaths : q = r := by
          rcases hxparts with ⟨-, hx'⟩ | ⟨-, -, hx'⟩ <;>
            rcases hzparts with ⟨-, hz'⟩ | ⟨-, -, hz'⟩
          all_goals
            rw [hfragment, hz'] at hx'
            exact (Prod.mk.inj (Prod.mk.inj hx').2).2.symm
        right
        rw [hxq, hpaths]
        exact hzr.mp hzspecific
      · trivial
  | addInterests p interests => trivial
  | deliverControl p => trivial
  | deliverCapability p => trivial
  | deliverIntersection p order => trivial
  | takeIntersection p => trivial

theorem sound_of_orderly (hlaw : PaiScheme.Lawful) {scalar : Role → PsiScalar}
    {secrets : Role → SecretStorage} (hhonest : ∀ p, Honest (secrets p) (auth p))
    (hs : Transition.Reachable PaiSession.step (Orderly auth) (start scalar nonce secrets) s) :
    Singles auth nonce s ∧ s.Sound := by
  refine hs.invariant (P := fun s => Singles auth nonce s ∧ s.Sound) ?_ ?_
  · refine ⟨singles_of_reachable hlaw hhonest .refl, fun p i hi => ?_⟩
    simp [start, PaiExchange.start] at hi
  · rintro s a s' ⟨h, hsound⟩ hallowed hstep
    refine ⟨h.step hlaw hallowed hstep, ?_⟩
    exact hsound.step hlaw h.causal.exchange (h.namesMostSpecific hlaw hsound a) hstep

/-! ### When nothing is on its way -/

omit [WillowDataModel] in
theorem Singles.submitted_of_quiet (h : Singles auth nonce s) (hquiet : s.Quiet)
    (hknown : (s.peer p).intersections.interests (auth p) ≠ none) :
    auth p ∈ (s.exchange.finder p).submitted := by
  have hs := h.single p
  have hpos : s.receivedControl p ≠ 0 := by
    obtain ⟨rest, hrest, -⟩ := (h.causal.ordered p.other).control
    rw [hquiet.control p, hrest]
    simp
  have hpending : (s.exchange.finder p).pending = none := by
    have hor := hs.established hpos
    rw [hquiet.paiInbox p] at hor
    exact hor.resolve_left (by simp)
  have hor := (hs.submitted (auth p)).mp hknown
  rw [hquiet.paiInbox p, hpending] at hor
  simpa using hor

omit [WillowDataModel] in
/-- A read capability was sent, for an intersection. -/
theorem Singles.sent_of_quiet (h : Singles auth nonce s) (hquiet : s.Quiet)
    (hfound : Found auth s p) : ∃ m ∈ (s.peer p).capability, ∃ i,
      .newIntersection i ∈ (s.exchange.finder p).outputs ∧ i.handle = m.handle := by
  obtain ⟨k, hk⟩ := hfound
  have hsent := (h.single p).forwarded _ hk
  rw [hquiet.intersectionInbox p] at hsent
  obtain ⟨m, hm, -⟩ := hsent.resolve_left (by simp)
  obtain ⟨a, -, hfound⟩ := (h.causal.ordered p).capability m hm
  exact ⟨m, hm, _, hfound, rfl⟩

omit [WillowDataModel] in
theorem Singles.answered_of_quiet (h : Singles auth nonce s) (hquiet : s.Quiet)
    {m : SetupBindReadCapability} (hm : m ∈ (s.peer p.other).capability) :
    Answered auth s p m.handle := by
  have hheard := (h.single p).heard m (by rwa [hquiet.capability p, List.take_length])
  rw [hquiet.paiInbox p] at hheard
  exact hheard.resolve_left (by simp)

omit [WillowDataModel] in
/-- A most specific primary fragment that meets one of the other session is found. -/
theorem Singles.found_of_meets (h : Singles auth nonce s) (hquiet : s.Quiet)
    (hsubmitted : ∀ p, auth p ∈ (s.exchange.finder p).submitted) {x y : LocalFragment}
    (hx : x ∈ fragmentsOf (auth p)) (hy : y ∈ fragmentsOf (auth p.other)) (hmeets : x.Meets y)
    (hon : x.info.onIntersection = .bindReadCap) : Found auth s p := by
  obtain ⟨o, ho⟩ := List.mem_iff_getElem?.mp (h.mem_of_submitted (hsubmitted p) hx)
  obtain ⟨t, ht⟩ := List.mem_iff_getElem?.mp (h.mem_of_submitted (hsubmitted p.other) hy)
  have hacted := h.causal.exchange.acted_of_quiet hquiet.intersection ⟨x, y, ho, ht, hmeets⟩
  have hfound := (h.acts p).found o t x hacted ho hon
  rw [PaiFinder.authorisation_of_mem_fragmentsOf hx] at hfound
  exact ⟨o, hfound⟩

end

end PaiSession

end Model

end IrohWillow
