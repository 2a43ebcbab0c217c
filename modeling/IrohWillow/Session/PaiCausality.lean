import IrohWillow.Session.PaiSession

/-!
# The reveal comes first

A session signs and verifies with a challenge that it knows only after the other
session has revealed its nonce, on the control channel. Capabilities travel on a
channel of their own. They are in order nevertheless: a session sends a read
capability after its `PaiFinder` found an intersection, for which both sessions
have submitted fragments, and a session submits fragments only after it has
received the nonce.
-/

namespace IrohWillow

section Model

variable [PaiScheme]

/-! ## What a session does with outputs -/

namespace PaiPeer

/-- The inputs of the intersection finder among the outputs of the `PaiFinder`. -/
def intersectionInputs (outputs : List PaiFinder.Output) : List IntersectionFinder.Input :=
  outputs.filterMap fun
    | .newIntersection i => some (.paiIntersection i.authorisation i.handle)
    | _ => none

/-- The message on the control channel that an output leads to. -/
def controlMessage (s : PaiPeer) : PaiFinder.Output → Option ControlMessage
  | .requestSubspaceCapability handle => some (.paiRequestSubspaceCapability handle)
  | .signAndSendSubspaceCap handle capability =>
      match s.caps.signSubspaceCapability s.secrets capability handle with
      | .ok message => some (.paiReplySubspaceCapability message)
      | .error _ => none
  | .sendMessage _ => none
  | .newIntersection _ => none

/-- The session has processed the outputs `done`. -/
structure Processed (s s' : PaiPeer) (done : List PaiFinder.Output) : Prop where
  secrets : s'.secrets = s.secrets
  intersections : s'.intersections = s.intersections
  paiInbox : s'.paiInbox = s.paiInbox
  intersectionInbox : s'.intersectionInbox = s.intersectionInbox ++ intersectionInputs done
  control : s'.control = s.control ++ done.filterMap s.controlMessage
  capability : s'.capability = s.capability
  calls : ∀ c ∈ s'.calls, c ∈ s.calls ∨
    c = s.caps.challenge ∧ ∃ h cap, .signAndSendSubspaceCap h cap ∈ done

/-- A subspace capability could not be signed. -/
def Unsigned (s : PaiPeer) (outputs : List PaiFinder.Output) (e : Error) : Prop :=
  ∃ h cap, .signAndSendSubspaceCap h cap ∈ outputs ∧
    s.caps.signSubspaceCapability s.secrets cap h = .error e

theorem Processed.refl (s : PaiPeer) : Processed s s [] :=
  ⟨rfl, rfl, rfl, by simp [intersectionInputs], by simp, rfl, fun _ hc => .inl hc⟩

theorem Processed.controlMessage {s s' : PaiPeer} {done : List PaiFinder.Output}
    (h : Processed s s' done) : s'.controlMessage = s.controlMessage := by
  have hcaps : s'.caps = s.caps := by rw [caps, caps, h.intersections]
  funext o
  cases o <;> simp [PaiPeer.controlMessage, hcaps, h.secrets]

theorem Processed.trans {s s' s'' : PaiPeer} {done done' : List PaiFinder.Output}
    (h : Processed s s' done) (h' : Processed s' s'' done') :
    Processed s s'' (done ++ done') where
  secrets := h'.secrets.trans h.secrets
  intersections := h'.intersections.trans h.intersections
  paiInbox := h'.paiInbox.trans h.paiInbox
  intersectionInbox := by
    rw [h'.intersectionInbox, h.intersectionInbox, List.append_assoc]
    simp [intersectionInputs]
  control := by
    rw [h'.control, h.control, h.controlMessage, List.append_assoc, List.filterMap_append]
  capability := h'.capability.trans h.capability
  calls c hc := by
    have hcaps : s'.caps = s.caps := by rw [caps, caps, h.intersections]
    rcases h'.calls c hc with hc | ⟨hc, n, cap, hmem⟩
    · rcases h.calls c hc with hc | ⟨hc, n, cap, hmem⟩
      · exact .inl hc
      · exact .inr ⟨hc, n, cap, List.mem_append_left _ hmem⟩
    · exact .inr ⟨by rw [hc, hcaps], n, cap, List.mem_append_right _ hmem⟩

/-- One output. -/
theorem processed_onPaiOutput {s : PaiPeer} (hfailed : s.failed = none) (o : PaiFinder.Output) :
    Processed s (s.onPaiOutput o) [o] ∧
      ((s.onPaiOutput o).failed = none ∨
        ∃ e, (s.onPaiOutput o).failed = some (.inl e) ∧ Unsigned s [o] e) := by
  have hnot : ¬ s.failed.isSome = true := by simp [hfailed]
  unfold onPaiOutput
  rw [if_neg hnot]
  cases o with
  | sendMessage m =>
      exact ⟨⟨rfl, rfl, rfl, by simp [intersectionInputs], by simp [controlMessage], rfl,
        fun _ hc => .inl hc⟩, .inl hfailed⟩
  | requestSubspaceCapability h =>
      exact ⟨⟨rfl, rfl, rfl, by simp [intersectionInputs], by simp [controlMessage], rfl,
        fun _ hc => .inl hc⟩, .inl hfailed⟩
  | newIntersection i =>
      exact ⟨⟨rfl, rfl, rfl, by simp [intersectionInputs], by simp [controlMessage], rfl,
        fun _ hc => .inl hc⟩, .inl hfailed⟩
  | signAndSendSubspaceCap h cap =>
      have hcalls : ∀ c ∈ s.challenged.calls, c ∈ s.calls ∨ c = s.caps.challenge ∧
          ∃ h' cap', .signAndSendSubspaceCap h' cap' ∈
            [PaiFinder.Output.signAndSendSubspaceCap h cap] := by
        intro c hc
        rcases List.mem_append.mp hc with hc | hc
        · exact .inl hc
        · exact .inr ⟨List.mem_singleton.mp hc, h, cap, List.mem_singleton_self _⟩
      dsimp only
      cases hsign : s.caps.signSubspaceCapability s.secrets cap h with
      | error e =>
          exact ⟨⟨rfl, rfl, rfl, by simp [intersectionInputs, fail, challenged],
            by simp [controlMessage, hsign, fail, challenged], rfl, hcalls⟩,
            .inr ⟨e, rfl, h, cap, List.mem_singleton_self _, hsign⟩⟩
      | ok message =>
          exact ⟨⟨rfl, rfl, rfl, by simp [intersectionInputs, challenged],
            by simp [controlMessage, hsign], rfl, hcalls⟩, .inl hfailed⟩

theorem foldl_onPaiOutput_of_failed {s : PaiPeer} (hfailed : s.failed ≠ none)
    (outputs : List PaiFinder.Output) : outputs.foldl onPaiOutput s = s := by
  induction outputs with
  | nil => rfl
  | cons o outputs ih =>
      have hsome : s.failed.isSome = true := Option.isSome_iff_ne_none.mpr hfailed
      have hsame : s.onPaiOutput o = s := by
        unfold onPaiOutput
        exact if_pos hsome
      rw [List.foldl_cons, hsame]
      exact ih

/-- All outputs are processed, unless a capability could not be signed. -/
theorem processed_foldl {s : PaiPeer} (hfailed : s.failed = none)
    (outputs : List PaiFinder.Output) :
    ∃ done, done <+: outputs ∧ Processed s (outputs.foldl onPaiOutput s) done ∧
      ((outputs.foldl onPaiOutput s).failed = none ∧ done = outputs ∨
        ∃ e, (outputs.foldl onPaiOutput s).failed = some (.inl e) ∧ Unsigned s outputs e) := by
  induction outputs generalizing s with
  | nil => exact ⟨[], List.prefix_refl _, .refl s, .inl ⟨hfailed, rfl⟩⟩
  | cons o outputs ih =>
      obtain ⟨hone, hnone | ⟨e, he, h, cap, hmem, hsign⟩⟩ := processed_onPaiOutput hfailed o
      · obtain ⟨done, hpre, hdone, hcases⟩ := ih hnone
        refine ⟨o :: done, (List.cons_prefix_cons).mpr ⟨rfl, hpre⟩, hone.trans hdone, ?_⟩
        rcases hcases with ⟨hnone', rfl⟩ | ⟨e, he, h, cap, hmem, hsign⟩
        · exact .inl ⟨hnone', rfl⟩
        · refine .inr ⟨e, he, h, cap, List.mem_cons_of_mem _ hmem, ?_⟩
          have hcaps : (s.onPaiOutput o).caps = s.caps := by rw [caps, caps, hone.intersections]
          rwa [hcaps, hone.secrets] at hsign
      · have hstop : (o :: outputs).foldl onPaiOutput s = s.onPaiOutput o := by
          rw [List.foldl_cons]
          exact foldl_onPaiOutput_of_failed (by simp [he]) outputs
        refine ⟨[o], ?_, hstop ▸ hone, .inr ⟨e, by rw [hstop, he], h, cap, ?_, hsign⟩⟩
        · exact (List.cons_prefix_cons).mpr ⟨rfl, List.nil_prefix⟩
        · exact List.mem_cons.mpr (.inl (List.mem_singleton.mp hmem))

/-! ## What a session does with intersections -/

open IntersectionFinder (Adds Binds isRequest)

/-- Outputs about areas of interest are not processed here. -/
theorem foldl_onIntersectionOutput (outputs : List IntersectionFinder.Output) (s : PaiPeer) :
    outputs.foldl onIntersectionOutput s =
      (outputs.filter isRequest).foldl onIntersectionOutput s := by
  induction outputs generalizing s with
  | nil => rfl
  | cons o outputs ih =>
      have hskip : isRequest o = false → s.onIntersectionOutput o = s := by
        intro ho
        unfold onIntersectionOutput
        cases o <;> simp_all [isRequest]
      cases ho : isRequest o with
      | true => simp only [List.foldl_cons, List.filter_cons, ho, if_true, ih]
      | false =>
          simp only [List.foldl_cons, List.filter_cons, ho, Bool.false_eq_true, if_false,
            hskip ho, ih]

theorem foldl_submitAuthorisation {s : PaiPeer} (hfailed : s.failed = none)
    (new : List ReadAuthorisation) :
    (new.map .submitAuthorisation).foldl onIntersectionOutput s =
      { s with paiInbox := s.paiInbox ++ new.map .submitAuthorisation } := by
  induction new generalizing s with
  | nil => simp
  | cons a new ih =>
      have hone : s.onIntersectionOutput (.submitAuthorisation a) =
          s.pushPai (.submitAuthorisation a) := by
        unfold onIntersectionOutput
        simp [hfailed]
      rw [List.map_cons, List.foldl_cons, hone, ih (s := s.pushPai _) hfailed]
      simp [pushPai]

variable [WillowDataModel]

/-- What taking an input of the intersection finder can do. -/
inductive Takes (s : PaiPeer) : IntersectionFinder.Input → List IntersectionFinder.Input →
    PaiPeer → Prop
  | interests {interests : List (ReadAuthorisation × List AreaOfInterest)}
      {rest : List IntersectionFinder.Input} {finder : IntersectionFinder}
      {new : List ReadAuthorisation} (hadds : Adds s.intersections finder new)
      (hnew : ∀ a, a ∈ new ↔ s.intersections.interests a = none ∧
        ∃ aois, (a, aois) ∈ interests) :
      Takes s (.addInterests interests) rest { s with
        intersectionInbox := rest
        intersections := finder
        paiInbox := s.paiInbox ++ new.map .submitAuthorisation }
  | areaOfInterest {ns : NamespaceId} {aoi : AreaOfInterest}
      {rest : List IntersectionFinder.Input} {finder : IntersectionFinder}
      (hadds : Adds s.intersections finder []) :
      Takes s (.receivedValidatedAoi ns aoi) rest { s with
        intersectionInbox := rest
        intersections := finder }
  | unknown {a : ReadAuthorisation} {h : Nat} {rest : List IntersectionFinder.Input}
      (hunknown : s.intersections.interests a = none) :
      Takes s (.paiIntersection a h) rest
        (({ s with intersectionInbox := rest }).fail .noKnownInterestsForCapability)
  | again {a : ReadAuthorisation} {h : Nat} {rest : List IntersectionFinder.Input}
      {finder : IntersectionFinder} (hbound : ∃ k, s.caps.ours.tryGet k = some a.readCap)
      (hadds : Adds s.intersections finder []) :
      Takes s (.paiIntersection a h) rest { s with
        intersectionInbox := rest
        intersections := finder }
  | first {a : ReadAuthorisation} {h : Nat} {rest : List IntersectionFinder.Input}
      {finder : IntersectionFinder} {message : SetupBindReadCapability}
      (hbinds : Binds s.intersections finder h a.readCap)
      (hsign : s.caps.signCapability s.secrets h a.readCap = .ok message) :
      Takes s (.paiIntersection a h) rest { s with
        intersectionInbox := rest
        intersections := finder
        capability := s.capability ++ [message]
        calls := s.calls ++ [s.caps.challenge] }
  | unsigned {a : ReadAuthorisation} {h : Nat} {rest : List IntersectionFinder.Input}
      {finder : IntersectionFinder} {e : Error}
      (hbinds : Binds s.intersections finder h a.readCap)
      (hsign : s.caps.signCapability s.secrets h a.readCap = .error e) :
      Takes s (.paiIntersection a h) rest (({ s with
        intersectionInbox := rest
        intersections := finder
        calls := s.calls ++ [s.caps.challenge] }).fail e)

omit [PaiScheme] [WillowDataModel] in
theorem signCapability_congr {c c' : Capabilities} (h : c'.challenge = c.challenge)
    (secrets : SecretStorage) (handle : Nat) (capability : ReadCapability) :
    c'.signCapability secrets handle capability = c.signCapability secrets handle capability := by
  unfold Capabilities.signCapability
  rw [h]

theorem takes_of_takeIntersection {s s' : PaiPeer} (hfailed : s.failed = none)
    (h : s.takeIntersection = some s') :
    ∃ input rest, s.intersectionInbox = input :: rest ∧ Takes s input rest s' := by
  unfold takeIntersection at h
  split at h
  · cases h
  · rename_i input rest hinbox
    refine ⟨input, rest, hinbox, ?_⟩
    have hdrop : ∀ {finder : IntersectionFinder} {outputs : List IntersectionFinder.Output},
        finder.outputs = s.intersections.outputs ++ outputs →
        finder.outputs.drop s.intersections.outputs.length = outputs := by
      intro finder outputs heq
      rw [heq, List.drop_left]
    have hadds : ∀ {finder new}, Adds s.intersections finder new →
        (finder.outputs.drop s.intersections.outputs.length).foldl onIntersectionOutput
          { s with intersectionInbox := rest, intersections := finder } = { s with
          intersectionInbox := rest
          intersections := finder
          paiInbox := s.paiInbox ++ new.map .submitAuthorisation } := by
      intro finder new hadds
      obtain ⟨outputs, heq, hfilter⟩ := hadds.outputs
      rw [hdrop heq, foldl_onIntersectionOutput, hfilter]
      exact foldl_submitAuthorisation
        (s := { s with intersectionInbox := rest, intersections := finder }) hfailed new
    cases input with
    | addInterests interests =>
        obtain ⟨new, hnew, hmem⟩ := IntersectionFinder.adds_addInterests s.intersections interests
        simp only [IntersectionFinder.onInput, hadds hnew] at h
        obtain rfl := Option.some.inj h
        exact .interests hnew hmem
    | receivedValidatedAoi ns aoi =>
        have hnew := IntersectionFinder.adds_bindValidated s.intersections .theirs ns aoi
        simp only [IntersectionFinder.onInput, hadds hnew] at h
        obtain rfl := Option.some.inj h
        have htakes : Takes s (.receivedValidatedAoi ns aoi) rest _ := .areaOfInterest hnew
        simpa using htakes
    | paiIntersection a handle =>
        simp only [IntersectionFinder.onInput] at h
        cases hok : s.intersections.onPaiIntersection a handle with
        | error e =>
            rw [hok] at h
            obtain rfl := Option.some.inj h
            unfold IntersectionFinder.onPaiIntersection at hok
            split at hok
            · rename_i hunknown
              obtain rfl := Except.error.inj hok
              exact .unknown hunknown
            · cases hok
        | ok finder =>
            rw [hok] at h
            -- a capability that is bound already is not sent again
            obtain ⟨-, ⟨hbound, hnew⟩ | hbinds⟩ := IntersectionFinder.onPaiIntersection_ok hok
            · simp only [hadds hnew] at h
              obtain rfl := Option.some.inj h
              have htakes : Takes s (.paiIntersection a handle) rest _ := .again hbound hnew
              simpa using htakes
            · obtain ⟨outputs, heq, hfilter⟩ := hbinds.outputs
              have hchallenge : finder.caps.challenge = s.intersections.caps.challenge := by
                rw [hbinds.caps]
              have hcongr := signCapability_congr hchallenge s.secrets handle a.readCap
              simp only [hdrop heq, foldl_onIntersectionOutput, hfilter, List.foldl_cons,
                List.foldl_nil, onIntersectionOutput, hfailed, Option.isSome_none,
                Bool.false_eq_true, if_false, caps, hcongr] at h
              -- the capability is new: it is signed and sent
              cases hsign : s.intersections.caps.signCapability s.secrets handle a.readCap with
              | error e =>
                  rw [hsign] at h
                  obtain rfl := Option.some.inj h
                  have htakes : Takes s (.paiIntersection a handle) rest _ :=
                    .unsigned hbinds hsign
                  simpa [challenged, caps, hchallenge, hfailed] using htakes
              | ok message =>
                  rw [hsign] at h
                  obtain rfl := Option.some.inj h
                  have htakes : Takes s (.paiIntersection a handle) rest _ := .first hbinds hsign
                  simpa [challenged, caps, hchallenge, hfailed] using htakes

end PaiPeer

/-! ## The invariant -/

namespace PaiSession

open PaiPeer (Processed Unsigned processed_foldl intersectionInputs)

/-- Processing the outputs of a `PaiFinder`. -/
theorem afterPai_spec {s : PaiSession} {p : Role} {exchange : PaiExchange} {peer : PaiPeer}
    {new : List PaiFinder.Output} (hfailed : peer.failed = none)
    (hnew : (exchange.finder p).outputs = (s.exchange.finder p).outputs ++ new) :
    ∃ done, done <+: new ∧ Processed peer (s.afterPai p exchange peer) done ∧
      ((s.afterPai p exchange peer).failed = (exchange.failed p).map .inr ∧ done = new ∨
        ∃ e, (s.afterPai p exchange peer).failed = some (.inl e) ∧ Unsigned peer new e) := by
  obtain ⟨done, hpre, hdone, hcases⟩ := processed_foldl hfailed new
  refine ⟨done, hpre, ?_⟩
  unfold afterPai
  rw [hnew, List.drop_left]
  cases exchange.failed p with
  | none => exact ⟨hdone, hcases⟩
  | some e =>
      refine ⟨⟨hdone.secrets, hdone.intersections, hdone.paiInbox, hdone.intersectionInbox,
        hdone.control, hdone.capability, hdone.calls⟩, ?_⟩
      rcases hcases with ⟨hnone, hall⟩ | ⟨e', he', hunsigned⟩
      · exact .inl ⟨by simp [hnone], hall⟩
      · exact .inr ⟨e', by simp [he'], hunsigned⟩

/-- The challenge of a session, before and after it has received the nonce of the
other one. -/
def challengeAt [ChallengeHash] (nonce : Role → AccessChallenge) (p : Role) : Nat → ChallengeState
  | 0 => .committed (nonce p) (ChallengeHash.hash (nonce p.other))
  | _ + 1 =>
      let ours := match p with
        | .alfie => bitwiseXor (nonce p) (nonce p.other)
        | .betty => bitwiseXorComplement (nonce p) (nonce p.other)
      .revealed ours (bitwiseComplement ours)

omit [PaiScheme] in
theorem isRevealed_challengeAt [ChallengeHash] {nonce : Role → AccessChallenge} {p : Role} {n : Nat}
    (hn : n ≠ 0) : (challengeAt nonce p n).isRevealed = true := by
  cases n with
  | zero => exact absurd rfl hn
  | succ n => rfl

/-- What one session has sent and received is in order. -/
structure Ordered [ChallengeHash] (nonce : Role → AccessChallenge) (s : PaiSession) (p : Role) :
    Prop where
  control : ∃ rest, (s.peer p).control = .commitmentReveal (nonce p) :: rest ∧
    ∀ n, .commitmentReveal n ∉ rest
  challenge : (s.peer p).caps.challenge = challengeAt nonce p (s.receivedControl p)
  established : .established ∈ (s.peer p).paiInbox ∨ (s.exchange.finder p).pending = none →
    s.receivedControl p ≠ 0
  inbox : ∀ a h, .paiIntersection a h ∈ (s.peer p).intersectionInbox →
    .newIntersection ⟨a, h⟩ ∈ (s.exchange.finder p).outputs
  capability : ∀ m ∈ (s.peer p).capability, ∃ a : ReadAuthorisation, m.capability = a.readCap ∧
    .newIntersection ⟨a, m.handle⟩ ∈ (s.exchange.finder p).outputs
  calls : ∀ c ∈ (s.peer p).calls, c.isRevealed = true
  failed : (s.peer p).failed ≠ some (.inl .invalidMessageInCurrentState)

/-- The causal chain: intersections have fragments of both sessions behind them. -/
structure Causal [ChallengeHash] (nonce : Role → AccessChallenge) (s : PaiSession) : Prop where
  exchange : s.exchange.Inv
  found : ∀ p i, .newIntersection i ∈ (s.exchange.finder p).outputs →
    (∃ x, (s.exchange.finder p).fragments[i.handle]? = some x ∧
      i.authorisation = x.authorisation) ∧ ∃ t, s.exchange.MeetAt p i.handle t
  ordered : ∀ p, Ordered nonce s p

variable [ChallengeHash] {nonce : Role → AccessChallenge} {s s' : PaiSession} {p : Role}

theorem Causal.revealed_of_fragments (h : Causal nonce s)
    (hne : (s.exchange.finder p).fragments ≠ []) : s.receivedControl p ≠ 0 := by
  refine (h.ordered p).established (.inr ?_)
  by_contra hpending
  exact hne (h.exchange.idle p hpending)

/-- Behind an intersection both sessions have received the nonce. -/
theorem Causal.revealed_of_found (h : Causal nonce s) {i : PaiIntersection}
    (hi : .newIntersection i ∈ (s.exchange.finder p).outputs) :
    s.receivedControl p ≠ 0 ∧ s.receivedControl p.other ≠ 0 := by
  obtain ⟨-, t, x, y, hx, hy, -⟩ := h.found p i hi
  constructor
  · refine h.revealed_of_fragments fun hnil => ?_
    simp [hnil] at hx
  · refine h.revealed_of_fragments fun hnil => ?_
    simp [hnil] at hy

theorem causal_start (scalar : Role → PsiScalar) (nonce : Role → AccessChallenge)
    (secrets : Role → SecretStorage) : Causal nonce (start scalar nonce secrets) where
  exchange := PaiExchange.inv_start scalar
  found p i hi := by simp [start, PaiExchange.start] at hi
  ordered p :=
    { control := ⟨[], rfl, by simp⟩
      challenge := rfl
      established := by simp [start, PaiExchange.start]
      inbox := by simp [start]
      capability := by simp [start]
      calls := by simp [start]
      failed := by simp [start] }

variable [Meadowcap] [WillowDataModel]

theorem Causal.found_step (hlaw : PaiScheme.Lawful) (h : Causal nonce s) {a : Action}
    (hstep : step s a = some s') :
    s'.exchange.Inv ∧ (∀ p, (s.exchange.finder p).outputs <+: (s'.exchange.finder p).outputs) ∧
      ∀ p i, .newIntersection i ∈ (s'.exchange.finder p).outputs →
        (∃ x, (s'.exchange.finder p).fragments[i.handle]? = some x ∧
          i.authorisation = x.authorisation) ∧ ∃ t, s'.exchange.MeetAt p i.handle t := by
  rcases exchange_of_step hstep with heq | ⟨a', -, hex⟩
  · rw [heq]
    exact ⟨h.exchange, fun p => List.prefix_refl _, h.found⟩
  · have hgrow := h.exchange.fragments_isPrefix hlaw hex
    refine ⟨h.exchange.step hlaw hex, h.exchange.outputs_isPrefix hlaw hex, fun p i hi => ?_⟩
    rcases h.exchange.found hlaw hex hi with hold | ⟨x, t, y, hfound⟩
    · obtain ⟨⟨x, hx, hauth⟩, t, x', y, hx', hy, hmeets⟩ := h.found p i hold
      exact ⟨⟨x, getElem?_of_isPrefix (hgrow _) hx, hauth⟩, t, x',
        y, getElem?_of_isPrefix (hgrow _) hx', getElem?_of_isPrefix (hgrow _) hy, hmeets⟩
    · exact ⟨⟨x, getElem?_of_isPrefix (hgrow _) hfound.own, hfound.authorisation⟩, t, x, y,
        getElem?_of_isPrefix (hgrow _) hfound.own, getElem?_of_isPrefix (hgrow _) hfound.peer,
        hfound.meets⟩

/-- A step concerns only the session that takes it. -/
theorem Causal.of_ordered (hlaw : PaiScheme.Lawful) (h : Causal nonce s) {a : Action}
    (hstep : step s a = some s') (hordered : Ordered nonce s' a.peer) : Causal nonce s' := by
  obtain ⟨hinv, hout, hfound⟩ := h.found_step hlaw hstep
  obtain ⟨hpeer, hcontrol, -⟩ := other_of_step hstep
  refine ⟨hinv, hfound, Role.forall_of a.peer hordered ?_⟩
  have ho := h.ordered a.peer.other
  have hfinder : s'.exchange.finder a.peer.other = s.exchange.finder a.peer.other := by
    rcases exchange_of_step hstep with heq | ⟨a', hcauses, hex⟩
    · rw [heq]
    · rw [← hcauses.peer]
      exact (PaiExchange.finder_other_of_step hex).1
  constructor
  · rw [hpeer]
    exact ho.control
  · rw [hpeer, hcontrol]
    exact ho.challenge
  · rw [hpeer, hcontrol, hfinder]
    exact ho.established
  · rw [hpeer, hfinder]
    exact ho.inbox
  · rw [hpeer, hfinder]
    exact ho.capability
  · rw [hpeer]
    exact ho.calls
  · rw [hpeer]
    exact ho.failed

/-! ## One step -/

omit [PaiScheme] [Meadowcap] [WillowDataModel] in
/-- The nonce of the other session is accepted. -/
theorem receivedCommitmentReveal_challengeAt {caps : Capabilities}
    (h : caps.challenge = challengeAt nonce p 0) :
    caps.receivedCommitmentReveal p (nonce p.other) =
      .ok { caps with challenge := challengeAt nonce p 1 } := by
  unfold Capabilities.receivedCommitmentReveal
  rw [h]
  cases p <;> simp [challengeAt, ChallengeState.reveal]

theorem Ordered.addInterests (h : Ordered nonce s p)
    {interests : List (ReadAuthorisation × List AreaOfInterest)}
    (hstep : step s (.addInterests p interests) = some s') : Ordered nonce s' p := by
  obtain ⟨-, rfl⟩ := step_addInterests hstep
  refine ⟨?_, ?_, ?_, ?_, ?_, ?_, ?_⟩ <;> simp only [Function.update_self]
  · exact h.control
  · exact h.challenge
  · exact h.established
  · intro a k hmem
    exact h.inbox a k (by simpa using hmem)
  · exact h.capability
  · exact h.calls
  · exact h.failed

omit [Meadowcap] [WillowDataModel] in
/-- The first message of the control channel is the nonce, the others are not. -/
theorem Ordered.next_control (h : Ordered nonce s p.other) {message : ControlMessage}
    (hmessage : (s.peer p.other).control[s.receivedControl p]? = some message) :
    s.receivedControl p = 0 ∧ message = .commitmentReveal (nonce p.other) ∨
      s.receivedControl p ≠ 0 ∧ ∀ n, message ≠ .commitmentReveal n := by
  obtain ⟨rest, hrest, hnone⟩ := h.control
  rw [hrest] at hmessage
  cases hn : s.receivedControl p with
  | zero =>
      rw [hn] at hmessage
      exact .inl ⟨rfl, (Option.some.inj hmessage).symm⟩
  | succ n =>
      rw [hn] at hmessage
      refine .inr ⟨by simp, ?_⟩
      rintro k rfl
      exact hnone k (List.mem_of_getElem? hmessage)

theorem Ordered.deliverControl (hother : Ordered nonce s p.other) (h : Ordered nonce s p)
    (hstep : step s (.deliverControl p) = some s') : Ordered nonce s' p := by
  obtain ⟨message, hfailed, hmessage, rfl⟩ := step_deliverControl hstep
  rcases hother.next_control hmessage with ⟨hzero, rfl⟩ | ⟨hpos, hnot⟩
  · -- the nonce
    have hchallenge := h.challenge
    rw [hzero] at hchallenge
    have hok := receivedCommitmentReveal_challengeAt hchallenge
    have hpeer : (s.peer p).onControlMessage p (.commitmentReveal (nonce p.other)) =
        ({ s.peer p with intersections := { (s.peer p).intersections with
          caps := { (s.peer p).caps with challenge := challengeAt nonce p 1 } } }).pushPai
          .established := by
      simp only [PaiPeer.onControlMessage, hok]
    refine ⟨?_, ?_, ?_, ?_, ?_, ?_, ?_⟩ <;> simp only [Function.update_self, hpeer]
    · exact h.control
    · rw [hzero]
      rfl
    · simp
    · exact h.inbox
    · exact h.capability
    · exact h.calls
    · exact h.failed
  · -- a request or a reply
    have hrevealed : (s.peer p).caps.challenge.isRevealed = true := by
      rw [h.challenge]
      exact isRevealed_challengeAt hpos
    have hchallenge : challengeAt nonce p (s.receivedControl p + 1) =
        challengeAt nonce p (s.receivedControl p) := by
      cases hn : s.receivedControl p with
      | zero => exact absurd hn hpos
      | succ n => rfl
    -- only the inbox, the calls and the failure can change
    have hsame : ∃ inputs calls failed, (s.peer p).onControlMessage p message = { s.peer p with
          paiInbox := (s.peer p).paiInbox ++ inputs, calls := calls, failed := failed } ∧
        (∀ c ∈ calls, c.isRevealed = true) ∧
        failed ≠ some (.inl .invalidMessageInCurrentState) := by
      have hcalls : ∀ c ∈ (s.peer p).challenged.calls, c.isRevealed = true := by
        intro c hc
        rcases List.mem_append.mp hc with hc | hc
        · exact h.calls c hc
        · rw [List.mem_singleton.mp hc]
          exact hrevealed
      cases message with
      | commitmentReveal n => exact absurd rfl (hnot n)
      | paiRequestSubspaceCapability handle =>
          refine ⟨[.receivedSubspaceCapRequest handle], _, _, ?_, h.calls, h.failed⟩
          simp [PaiPeer.onControlMessage, hrevealed, PaiPeer.pushPai]
      | paiReplySubspaceCapability m =>
          cases hverify : (s.peer p).caps.verifySubspaceCap m.capability m.signature with
          | error e =>
              obtain rfl := Capabilities.verifySubspaceCap_error hrevealed hverify
              refine ⟨[], _, some (.inl .invalidSignature), ?_, hcalls, by simp⟩
              simp [PaiPeer.onControlMessage, hrevealed, hverify, PaiPeer.fail,
                PaiPeer.challenged]
          | ok _ =>
              refine ⟨[.receivedVerifiedSubspaceCapReply m.handle m.capability.grantedNamespace],
                _, _, ?_, hcalls, h.failed⟩
              simp [PaiPeer.onControlMessage, hrevealed, hverify, PaiPeer.pushPai,
                PaiPeer.challenged]
    obtain ⟨inputs, calls, failed, hpeer, hcalls, hfail⟩ := hsame
    refine ⟨?_, ?_, ?_, ?_, ?_, ?_, ?_⟩ <;> simp only [Function.update_self, hpeer]
    · exact h.control
    · rw [hchallenge]
      exact h.challenge
    · simp
    · exact h.inbox
    · exact h.capability
    · exact hcalls
    · exact hfail

theorem Causal.deliverCapability (h : Causal nonce s)
    (hstep : step s (.deliverCapability p) = some s') : Ordered nonce s' p := by
  obtain ⟨message, hfailed, hmessage, rfl⟩ := step_deliverCapability hstep
  have ho := h.ordered p
  -- the other session has found an intersection
  obtain ⟨a, -, hfound⟩ := (h.ordered p.other).capability message (List.mem_of_getElem? hmessage)
  have hpos := (h.revealed_of_found hfound).2
  rw [Role.other_other] at hpos
  have hrevealed : (s.peer p).caps.challenge.isRevealed = true := by
    rw [ho.challenge]
    exact isRevealed_challengeAt hpos
  have hcalls : ∀ c ∈ (s.peer p).challenged.calls, c.isRevealed = true := by
    intro c hc
    rcases List.mem_append.mp hc with hc | hc
    · exact ho.calls c hc
    · rw [List.mem_singleton.mp hc]
      exact hrevealed
  cases hvalid : (s.peer p).caps.validateAndBindTheirs message.capability message.signature with
  | error e =>
      obtain rfl := Capabilities.validateAndBindTheirs_error hrevealed hvalid
      have hpeer : (s.peer p).onReadCapability message =
          (s.peer p).challenged.fail .invalidSignature := by
        simp [PaiPeer.onReadCapability, hvalid]
      refine ⟨?_, ?_, ?_, ?_, ?_, ?_, ?_⟩ <;> simp only [Function.update_self, hpeer]
      · exact ho.control
      · exact ho.challenge
      · exact ho.established
      · exact ho.inbox
      · exact ho.capability
      · exact hcalls
      · simp [PaiPeer.fail]
  | ok caps =>
      obtain ⟨-, -, -, -, rfl⟩ := Capabilities.validateAndBindTheirs_ok hvalid
      have hpeer : (s.peer p).onReadCapability message = ({ (s.peer p).challenged with
          intersections := { (s.peer p).intersections with caps := { (s.peer p).caps with
            theirs := ((s.peer p).caps.theirs.bind message.capability).2 } } }).pushPai
          (.receivedReadCapForIntersection message.handle) := by
        simp only [PaiPeer.onReadCapability, hvalid]
      refine ⟨?_, ?_, ?_, ?_, ?_, ?_, ?_⟩ <;> simp only [Function.update_self, hpeer]
      · exact ho.control
      · exact ho.challenge
      · simpa [PaiPeer.pushPai, PaiPeer.challenged] using ho.established
      · exact ho.inbox
      · exact ho.capability
      · exact hcalls
      · exact ho.failed

omit [Meadowcap] [WillowDataModel] in
/-- A subspace capability is signed after the reveal. -/
theorem Causal.revealed_of_explained (h : Causal nonce s) {a : PaiExchange.Action} {handle : Nat}
    {cap : SubspaceCapability}
    (he : PaiExchange.Explained s.exchange p a (.signAndSendSubspaceCap handle cap)) :
    (s.peer p).caps.challenge.isRevealed = true := by
  cases he with
  | subspaceCap hasked =>
      rw [(h.ordered p).challenge]
      refine isRevealed_challengeAt (h.revealed_of_fragments fun hnil => ?_)
      have hown := hasked.own
      simp [hnil] at hown

omit [Meadowcap] [WillowDataModel] [ChallengeHash] in
theorem mem_intersectionInputs {outputs : List PaiFinder.Output} {a : ReadAuthorisation} {k : Nat}
    (h : .paiIntersection a k ∈ intersectionInputs outputs) :
    .newIntersection ⟨a, k⟩ ∈ outputs := by
  obtain ⟨o, ho, heq⟩ := List.mem_filterMap.mp h
  split at heq
  · rename_i i
    obtain ⟨rfl, rfl⟩ := IntersectionFinder.Input.paiIntersection.inj (Option.some.inj heq)
    exact ho
  · cases heq

omit [Meadowcap] [WillowDataModel] [ChallengeHash] in
theorem not_reveal_of_controlMessage {peer : PaiPeer} {outputs : List PaiFinder.Output}
    {n : AccessChallenge} : .commitmentReveal n ∉ outputs.filterMap peer.controlMessage := by
  intro hmem
  obtain ⟨o, -, heq⟩ := List.mem_filterMap.mp hmem
  cases o with
  | sendMessage m => simp [PaiPeer.controlMessage] at heq
  | requestSubspaceCapability k => simp [PaiPeer.controlMessage] at heq
  | newIntersection i => simp [PaiPeer.controlMessage] at heq
  | signAndSendSubspaceCap k cap =>
      simp only [PaiPeer.controlMessage] at heq
      split at heq
      · cases Option.some.inj heq
      · cases heq

omit [Meadowcap] [WillowDataModel] in
/-- The `PaiFinder` has taken an input or a message. -/
theorem Causal.afterPai (hlaw : PaiScheme.Lawful) (h : Causal nonce s) {a : PaiExchange.Action}
    (hex : s.exchange.step a = some s'.exchange) (hp : a.peer = p) {inbox : List PaiFinder.Input}
    (hs' : s' = { s with
      exchange := s'.exchange
      peer := Function.update s.peer p
        (s.afterPai p s'.exchange { s.peer p with paiInbox := inbox }) })
    (hfailed : (s.peer p).failed = none) (hinbox : inbox <:+ (s.peer p).paiInbox)
    (hpending : (s'.exchange.finder p).pending = none → (s.exchange.finder p).pending = none ∨
      .established ∈ (s.peer p).paiInbox) : Ordered nonce s' p := by
  have ho := h.ordered p
  obtain ⟨-, new, hnew, hexplained⟩ := h.exchange.explained hlaw hex
  rw [hp] at hnew hexplained
  obtain ⟨done, hpre, hdone, hcases⟩ :=
    @afterPai_spec _ _ _ _ { s.peer p with paiInbox := inbox } _ hfailed hnew
  have hpeer : s'.peer p = s.afterPai p s'.exchange { s.peer p with paiInbox := inbox } := by
    rw [hs']
    exact Function.update_self _ _ _
  have hcontrol : s'.receivedControl = s.receivedControl := by rw [hs']
  rw [← hpeer] at hdone hcases
  -- the finder only adds to its outputs
  have hold : ∀ o, o ∈ (s.exchange.finder p).outputs → o ∈ (s'.exchange.finder p).outputs := by
    intro o ho
    rw [hnew]
    exact List.mem_append_left _ ho
  refine ⟨?_, ?_, ?_, ?_, ?_, ?_, ?_⟩
  · obtain ⟨rest, hrest, hnone⟩ := ho.control
    refine ⟨rest ++ done.filterMap (PaiPeer.controlMessage { s.peer p with paiInbox := inbox }),
      ?_, fun n hn => ?_⟩
    · rw [hdone.control]
      show (s.peer p).control ++ _ = _
      rw [hrest, List.cons_append]
    · rcases List.mem_append.mp hn with hn | hn
      · exact hnone n hn
      · exact not_reveal_of_controlMessage hn
  · rw [hcontrol, PaiPeer.caps, hdone.intersections]
    exact ho.challenge
  · rw [hcontrol, hdone.paiInbox]
    rintro (hmem | hnone)
    · exact ho.established (.inl (hinbox.subset hmem))
    · rcases hpending hnone with hnone | hmem
      · exact ho.established (.inr hnone)
      · exact ho.established (.inl hmem)
  · intro b k hmem
    rw [hdone.intersectionInbox] at hmem
    rcases List.mem_append.mp hmem with hmem | hmem
    · exact hold _ (ho.inbox b k hmem)
    · rw [hnew]
      exact List.mem_append_right _ (hpre.subset (mem_intersectionInputs hmem))
  · intro m hm
    rw [hdone.capability] at hm
    obtain ⟨b, hb, hfound⟩ := ho.capability m hm
    exact ⟨b, hb, hold _ hfound⟩
  · intro c hc
    rcases hdone.calls c hc with hc | ⟨rfl, k, cap, hmem⟩
    · exact ho.calls c hc
    · exact h.revealed_of_explained (hexplained _ (hpre.subset hmem))
  · -- signing fails only before the reveal, and the reveal has come
    rcases hcases with ⟨hnone, -⟩ | ⟨e, he, k, cap, hmem, hsign⟩
    · rw [hnone]
      cases s'.exchange.failed p <;> simp
    · rw [he]
      obtain rfl := Capabilities.signSubspaceCapability_error
        (h.revealed_of_explained (hexplained _ hmem)) hsign
      simp

theorem Causal.takeIntersection (h : Causal nonce s)
    (hstep : step s (.takeIntersection p) = some s') : Ordered nonce s' p := by
  obtain ⟨peer, hfailed, hpeer, rfl⟩ := step_takeIntersection hstep
  obtain ⟨input, rest, hinbox, htakes⟩ := PaiPeer.takes_of_takeIntersection hfailed hpeer
  have ho := h.ordered p
  have hrest : ∀ a k, .paiIntersection a k ∈ rest →
      .newIntersection ⟨a, k⟩ ∈ (s.exchange.finder p).outputs :=
    fun a k hmem => ho.inbox a k (hinbox ▸ List.mem_cons_of_mem _ hmem)
  -- an intersection in the inbox was found after the reveal
  have hrevealed : ∀ a k, input = .paiIntersection a k →
      .newIntersection ⟨a, k⟩ ∈ (s.exchange.finder p).outputs ∧
        (s.peer p).caps.challenge.isRevealed = true := by
    rintro a k rfl
    have hfound := ho.inbox a k (hinbox ▸ List.mem_cons_self)
    refine ⟨hfound, ?_⟩
    rw [ho.challenge]
    exact isRevealed_challengeAt (h.revealed_of_found hfound).1
  have hcalls : (s.peer p).caps.challenge.isRevealed = true →
      ∀ c ∈ (s.peer p).calls ++ [(s.peer p).caps.challenge], c.isRevealed = true := by
    intro hr c hc
    rcases List.mem_append.mp hc with hc | hc
    · exact ho.calls c hc
    · rw [List.mem_singleton.mp hc]
      exact hr
  cases htakes with
  | @interests _ _ finder new hadds _ =>
      refine ⟨?_, ?_, ?_, ?_, ?_, ?_, ?_⟩ <;> simp only [Function.update_self]
      · exact ho.control
      · rw [PaiPeer.caps, hadds.caps]
        exact ho.challenge
      · simpa using ho.established
      · exact hrest
      · exact ho.capability
      · exact ho.calls
      · exact ho.failed
  | @areaOfInterest _ _ _ finder hadds =>
      refine ⟨?_, ?_, ?_, ?_, ?_, ?_, ?_⟩ <;> simp only [Function.update_self]
      · exact ho.control
      · rw [PaiPeer.caps, hadds.caps]
        exact ho.challenge
      · exact ho.established
      · exact hrest
      · exact ho.capability
      · exact ho.calls
      · exact ho.failed
  | unknown _ =>
      refine ⟨?_, ?_, ?_, ?_, ?_, ?_, ?_⟩ <;> simp only [Function.update_self]
      · exact ho.control
      · exact ho.challenge
      · exact ho.established
      · exact hrest
      · exact ho.capability
      · exact ho.calls
      · simp [PaiPeer.fail]
  | @again a k _ finder _ hadds =>
      refine ⟨?_, ?_, ?_, ?_, ?_, ?_, ?_⟩ <;> simp only [Function.update_self]
      · exact ho.control
      · rw [PaiPeer.caps, hadds.caps]
        exact ho.challenge
      · exact ho.established
      · exact hrest
      · exact ho.capability
      · exact ho.calls
      · exact ho.failed
  | @first a k _ finder message hbinds hsign =>
      obtain ⟨hfound, hr⟩ := hrevealed a k rfl
      obtain ⟨-, -, -, hcap, hhandle⟩ := Capabilities.signCapability_ok hsign
      refine ⟨?_, ?_, ?_, ?_, ?_, ?_, ?_⟩ <;> simp only [Function.update_self]
      · exact ho.control
      · rw [PaiPeer.caps, hbinds.caps]
        exact ho.challenge
      · exact ho.established
      · exact hrest
      · intro m hm
        rcases List.mem_append.mp hm with hm | hm
        · exact ho.capability m hm
        · obtain rfl := List.mem_singleton.mp hm
          exact ⟨a, hcap, hhandle ▸ hfound⟩
      · exact hcalls hr
      · exact ho.failed
  | @unsigned a k _ finder e hbinds hsign =>
      obtain ⟨hfound, hr⟩ := hrevealed a k rfl
      obtain rfl := Capabilities.signCapability_error hr hsign
      refine ⟨?_, ?_, ?_, ?_, ?_, ?_, ?_⟩ <;> simp only [Function.update_self]
      · exact ho.control
      · rw [PaiPeer.caps]
        show finder.caps.challenge = _
        rw [hbinds.caps]
        exact ho.challenge
      · exact ho.established
      · exact hrest
      · exact ho.capability
      · exact hcalls hr
      · simp [PaiPeer.fail]

omit [Meadowcap] [WillowDataModel] [ChallengeHash] in
/-- The pending authorisations are taken when the session is established. -/
theorem pending_of_reacts {f f' : PaiFinder} {theirs : List LocalFragment} {n : Nat}
    {order : List Nat} {input : PaiFinder.Input} {res : Except PaiFinder.Failure Unit}
    (h : PaiFinder.Reacts f theirs n order input res f') (hnone : f'.pending = none) :
    f.pending = none ∨ input = .established := by
  cases h with
  | queued _ => cases hnone
  | submitted hp _ _ _ => exact .inl hp
  | established _ _ _ _ => exact .inr rfl
  | establishedAgain hp => exact .inl hp
  | request _ => exact .inl hnone
  | requestMissing _ => exact .inl hnone
  | readCap _ => exact .inl hnone
  | readCapMissing _ => exact .inl hnone
  | reply _ _ _ => exact .inl hnone
  | replyWrongNamespace _ _ _ => exact .inl hnone
  | replyInvalid _ => exact .inl hnone

/-- **One step** keeps the causal chain. -/
theorem Causal.step (hlaw : PaiScheme.Lawful) (h : Causal nonce s) {a : Action}
    (hstep : PaiSession.step s a = some s') : Causal nonce s' := by
  refine h.of_ordered hlaw hstep ?_
  cases a with
  | addInterests p interests => exact (h.ordered p).addInterests hstep
  | deliverControl p => exact (h.ordered p.other).deliverControl (h.ordered p) hstep
  | deliverCapability p => exact h.deliverCapability hstep
  | takePai p order drained =>
      obtain ⟨input, rest, hfailed, hinbox, hex, hs'⟩ := step_takePai hstep
      show Ordered nonce s' p
      refine h.afterPai hlaw hex rfl hs' hfailed ?_ fun hnone => ?_
      · rw [hinbox]
        exact List.suffix_cons _ _
      · rcases pending_of_reacts (h.exchange.input hlaw hex).1 hnone with hp | rfl
        · exact .inl hp
        · exact .inr (hinbox ▸ List.mem_cons_self)
  | deliverIntersection p order =>
      obtain ⟨hfailed, hex, hs'⟩ := step_deliverIntersection hstep
      show Ordered nonce s' p
      refine h.afterPai hlaw hex rfl hs' hfailed List.suffix_rfl fun hnone => ?_
      obtain ⟨⟨message, handle, sent, ms, hd⟩, -⟩ := h.exchange.deliver hlaw hex
      exact .inl (hd.checked.pending ▸ hnone)
  | takeIntersection p => exact h.takeIntersection hstep

theorem causal_of_reachable (hlaw : PaiScheme.Lawful) {scalar : Role → PsiScalar}
    {secrets : Role → SecretStorage} {Allowed : PaiSession → Action → Prop}
    (hs : Transition.Reachable PaiSession.step Allowed (start scalar nonce secrets) s) :
    Causal nonce s :=
  hs.invariant (causal_start scalar nonce secrets) fun _ _ _ h _ hstep => h.step hlaw hstep

/-- **The reveal comes first.** In every run of two sessions, `signable` and `verify`
are called only after the challenge is revealed, and no session ends because a
message is not valid in its state. -/
theorem reveal_precedes_use (hlaw : PaiScheme.Lawful) (scalar : Role → PsiScalar)
    (nonce : Role → AccessChallenge) (secrets : Role → SecretStorage) (s : PaiSession)
    (hs : Transition.Reachable PaiSession.step (fun _ _ => True) (start scalar nonce secrets) s)
    (p : Role) :
    (∀ c ∈ (s.peer p).calls, c.isRevealed = true) ∧
      (s.peer p).failed ≠ some (.inl .invalidMessageInCurrentState) := by
  have ho := (causal_of_reachable hlaw hs).ordered p
  exact ⟨ho.calls, ho.failed⟩

end PaiSession

end Model

namespace PaiSession

open IrohWillow.Sample PaiSession.Sample

attribute [local instance] countingScheme acceptingSignatures plainHash noAreas

set_option maxRecDepth 4000 in
/-- Alfie signs a read capability. -/
theorem reveal_precedes_use_signed :
    ∃ s, Transition.Reachable step (fun _ _ => True) session s ∧ (s.peer .alfie).calls ≠ [] ∧
      ∀ c ∈ (s.peer .alfie).calls, c.isRevealed = true := by
  have hrun : ((Transition.run step session
      (submit .alfie [readAuthorisation .any [[1]] none] ++
        submit .betty [readAuthorisation .any [[1]] none] ++
        deliver .betty 2 ++ deliver .alfie 4 ++ [.takeIntersection .alfie])).map fun s =>
      (s.peer .alfie).calls.length) = some 1 := by rfl
  obtain ⟨s, hs, hlength⟩ := Option.map_eq_some_iff.mp hrun
  have hreach : Transition.Reachable step (fun _ _ => True) session s := .of_run hs (by decide)
  refine ⟨s, hreach, fun hnil => by simp [hnil] at hlength, ?_⟩
  exact (reveal_precedes_use countingScheme_lawful _ _ _ s hreach .alfie).1

end PaiSession

end IrohWillow
