import IrohWillow.Session.PaiAgreement

/-!
# Agreement with a selective capability

One session has an authorisation for a single subspace, the other one for all
subspaces, with a subspace capability. The fragments that can meet are the secondary
ones of the former and the primary ones of the latter. When the former is matched with
its most specific fragment it asks for the subspace capability: its path is then a
prefix of the other one. A longer path of the former leads to a match too, but of a less
specific secondary fragment, about which nothing is done.

Nothing that was asked for is lost: the request, or the reply, is on its way until the
reply is accepted.
-/

namespace IrohWillow

section Model

variable [PaiScheme]

namespace PaiSession

open PaiFinder (fragmentsOf requests reaction)
open PaiPeer (Processed)

/-- A session with the role `r` has an authorisation for one subspace, the other one
for all of them. -/
structure Selective (auth : Role → ReadAuthorisation) (r : Role) : Prop where
  namespaceId : (auth r.other).namespaceId = (auth r).namespaceId
  selective : (auth r).readCap.grantedArea.subspace ≠ .any
  complete : (auth r.other).readCap.grantedArea.subspace = .any
  subspaceCap : (auth r.other).subspaceCap ≠ none

/-- Whatever asks for a subspace capability meets a fragment of an authorisation that
has one. -/
def Grants (auth : Role → ReadAuthorisation) : Prop :=
  ∀ p, ∀ x ∈ fragmentsOf (auth p), ∀ y ∈ fragmentsOf (auth p.other), x.Requests → x.Meets y →
    (auth p.other).subspaceCap ≠ none

/-- **What is asked for is pursued**: a match of a fragment that asks is remembered
until it is found, and a request or a reply for what is remembered is on its way. -/
structure Pursued (s : PaiSession) (p : Role) : Prop where
  asked : ∀ o t, (o, t) ∈ (s.exchange.finder p).acted →
    requests (s.exchange.finder p).fragments o = true →
    o ∈ (s.exchange.finder p).requestedSubspaceCapHandles ∨
      ∃ i, .newIntersection i ∈ (s.exchange.finder p).outputs ∧ i.handle = o
  underway : ∀ o ∈ (s.exchange.finder p).requestedSubspaceCapHandles, o ∈ s.openHandles p

theorem pursued_start [ChallengeHash] (scalar : Role → PsiScalar) (nonce : Role → AccessChallenge)
    (secrets : Role → SecretStorage) (p : Role) : Pursued (start scalar nonce secrets) p where
  asked o t h := by simp [start, PaiExchange.start] at h
  underway o h := by simp [start, PaiExchange.start] at h

variable {s s' : PaiSession} {p q : Role}

theorem eq_of_requested {input : PaiFinder.Input} {o : Nat} (h : input.requested = some o) :
    input = .receivedSubspaceCapRequest o := by
  cases input with
  | receivedSubspaceCapRequest handle =>
      obtain rfl := Option.some.inj h
      rfl
  | established => cases h
  | submitAuthorisation a => cases h
  | receivedMessage m => cases h
  | receivedVerifiedSubspaceCapReply handle ns => cases h
  | receivedReadCapForIntersection handle => cases h

/-- Where a request or a reply for the handle is. -/
theorem mem_openHandles {o : Nat} : o ∈ s.openHandles p ↔
    ((∃ m ∈ s.unread p, m.requested = some o) ∨
      ∃ i ∈ (s.peer p.other).paiInbox, i.requested = some o) ∨
    ∃ ns, (∃ m ∈ s.unread p.other, m.replied = some (o, ns)) ∨
      ∃ i ∈ (s.peer p).paiInbox, i.replied = some (o, ns) := by
  simp only [openHandles, openRequests, openReplies, List.mem_append, List.mem_map,
    List.mem_filterMap, Prod.exists, exists_and_right, exists_eq_right]

/-- Nothing on its way is lost when messages are only added, but for what the session
itself takes. -/
theorem mem_openHandles_mono {o : Nat} (ho : o ∈ s.openHandles p)
    (hunread : s.unread p ⊆ s'.unread p) (hother : s.unread p.other ⊆ s'.unread p.other)
    (hrequests : ∀ i ∈ (s.peer p.other).paiInbox, i.requested = some o →
      i ∈ (s'.peer p.other).paiInbox)
    (hreplies : ∀ i ∈ (s.peer p).paiInbox, ∀ ns, i.replied = some (o, ns) →
      i ∈ (s'.peer p).paiInbox) : o ∈ s'.openHandles p := by
  rw [mem_openHandles] at ho ⊢
  rcases ho with (⟨m, hm, heq⟩ | ⟨i, hi, heq⟩) | ⟨ns, ⟨m, hm, heq⟩ | ⟨i, hi, heq⟩⟩
  · exact .inl (.inl ⟨m, hunread hm, heq⟩)
  · exact .inl (.inr ⟨i, hrequests i hi heq, heq⟩)
  · exact .inr ⟨ns, .inl ⟨m, hother hm, heq⟩⟩
  · exact .inr ⟨ns, .inr ⟨i, hreplies i hi ns heq, heq⟩⟩

/-- The finder is the same. -/
theorem Pursued.of_same (h : s.Pursued p)
    (hfinder : s'.exchange.finder p = s.exchange.finder p)
    (hopen : ∀ o ∈ s.openHandles p, o ∈ s'.openHandles p) : s'.Pursued p where
  asked := by
    rw [hfinder]
    exact h.asked
  underway := by
    rw [hfinder]
    exact fun o ho => hopen o (h.underway o ho)

theorem Pursued.of_inputs (h : s.Pursued p) (hinputs : OnlyInputs s s') : s'.Pursued p := by
  refine h.of_same (by rw [hinputs.exchange]) fun o ho => ?_
  rwa [openHandles, hinputs.openRequests, hinputs.openReplies]

section

variable [Meadowcap] [ChallengeHash] {auth : Role → ReadAuthorisation}
  {nonce : Role → AccessChallenge}

/-- A message that is taken becomes an input. -/
theorem Singles.pursued_deliverControl [WillowDataModel] (h : Singles auth nonce s)
    (hp : ∀ p, s.Pursued p) (hstep : PaiSession.step s (.deliverControl q) = some s') :
    ∀ p, s'.Pursued p := by
  obtain ⟨message, -, hmessage, rfl⟩ := step_deliverControl hstep
  have hpushes := h.pushes_onControlMessage hmessage
  obtain ⟨hlt, hget⟩ := List.getElem?_eq_some_iff.mp hmessage
  set s' : PaiSession := { s with
    peer := Function.update s.peer q ((s.peer q).onControlMessage q message)
    receivedControl := Function.update s.receivedControl q (s.receivedControl q + 1) } with hs'
  have hself : s'.peer q = (s.peer q).onControlMessage q message := Function.update_self _ _ _
  have hother : s'.peer q.other = s.peer q.other := Function.update_of_ne q.other_ne _ _
  have hinbox : (s'.peer q).paiInbox = (s.peer q).paiInbox ++ [inputOf message] := by
    rw [hself, hpushes.paiInbox]
  have hunread : s.unread q.other = message :: s'.unread q.other := by
    rw [unread, unread, hother, Role.other_other, hs']
    simp only [Function.update_self]
    rw [List.drop_eq_getElem_cons hlt, hget]
  have hunread' : s'.unread q = s.unread q := by
    rw [unread, unread, hself, hpushes.control, hs']
    simp only [Function.update_of_ne q.other_ne]
  refine fun p => (hp p).of_same rfl fun o ho => ?_
  rw [mem_openHandles] at ho ⊢
  rcases Role.eq_or_eq_other q p with rfl | rfl
  · rw [hunread', hother, hinbox]
    rw [hunread] at ho
    rcases ho with hrequests | ⟨ns, ⟨m, hm, heq⟩ | ⟨i, hi, heq⟩⟩
    · exact .inl hrequests
    · rcases List.mem_cons.mp hm with rfl | hm
      · exact .inr ⟨ns, .inr ⟨_, by simp, (replied_inputOf m).trans heq⟩⟩
      · exact .inr ⟨ns, .inl ⟨m, hm, heq⟩⟩
    · exact .inr ⟨ns, .inr ⟨i, List.mem_append_left _ hi, heq⟩⟩
  · rw [Role.other_other, hunread', hother, hinbox]
    rw [Role.other_other, hunread] at ho
    rcases ho with (⟨m, hm, heq⟩ | ⟨i, hi, heq⟩) | hreplies
    · rcases List.mem_cons.mp hm with rfl | hm
      · exact .inl (.inr ⟨_, by simp, (requested_inputOf m).trans heq⟩)
      · exact .inl (.inl ⟨m, hm, heq⟩)
    · exact .inl (.inr ⟨i, List.mem_append_left _ hi, heq⟩)
    · exact .inr hreplies

/-! ### The finder returns from a call -/

/-- The messages that the outputs lead to are not taken yet. -/
theorem Singles.unread_of_processed (h : Singles auth nonce s) {inbox : List PaiFinder.Input}
    {new : List PaiFinder.Output}
    (hprocessed : Processed { s.peer q with paiInbox := inbox } (s'.peer q) new)
    (hcontrol : s'.receivedControl = s.receivedControl) :
    s'.unread q = s.unread q ++
      new.filterMap (PaiPeer.controlMessage { s.peer q with paiInbox := inbox }) := by
  rw [unread, hprocessed.control, hcontrol]
  exact List.drop_append_of_le_length (h.accounted q).received

omit [Meadowcap] [ChallengeHash] in
/-- What is remembered after an input. -/
theorem requested_of_reacts {f f' : PaiFinder} {theirs : List LocalFragment} {n : Nat}
    {order : List Nat} {input : PaiFinder.Input}
    (h : PaiFinder.Reacts f theirs n order input (.ok ()) f') :
    (∀ o ∈ f.requestedSubspaceCapHandles, o ∈ f'.requestedSubspaceCapHandles ∨
      ∃ i, .newIntersection i ∈ f'.outputs ∧ i.handle = o) ∧
    ∀ o ∈ f'.requestedSubspaceCapHandles, o ∈ f.requestedSubspaceCapHandles ∧
      ∀ ns, input.replied ≠ some (o, ns) := by
  cases h with
  | queued _ => exact ⟨fun o ho => .inl ho, fun o ho => ⟨ho, by simp [PaiFinder.Input.replied]⟩⟩
  | submitted _ hnew _ _ =>
      rw [hnew.requested]
      exact ⟨fun o ho => .inl ho, fun o ho => ⟨ho, by simp [PaiFinder.Input.replied]⟩⟩
  | established _ hnew _ _ =>
      rw [hnew.requested]
      exact ⟨fun o ho => .inl ho, fun o ho => ⟨ho, by simp [PaiFinder.Input.replied]⟩⟩
  | establishedAgain _ =>
      exact ⟨fun o ho => .inl ho, fun o ho => ⟨ho, by simp [PaiFinder.Input.replied]⟩⟩
  | request _ => exact ⟨fun o ho => .inl ho, fun o ho => ⟨ho, by simp [PaiFinder.Input.replied]⟩⟩
  | readCap _ => exact ⟨fun o ho => .inl ho, fun o ho => ⟨ho, by simp [PaiFinder.Input.replied]⟩⟩
  | @reply k ns x hx hrequested hns =>
      refine ⟨fun o ho => ?_, fun o ho => ?_⟩
      · by_cases heq : o = k
        · exact .inr ⟨x.info.toPaiIntersection k, List.mem_append_right _ List.mem_cons_self, heq.symm⟩
        · exact .inl (Finset.mem_erase.mpr ⟨heq, ho⟩)
      · obtain ⟨hne, hmem⟩ := Finset.mem_erase.mp ho
        refine ⟨hmem, fun ns' heq => hne ?_⟩
        exact (Prod.mk.inj (Option.some.inj heq)).1.symm

/-- **A request is answered** when the fragment was replied to. -/
theorem Singles.answered_of_request (h : Singles auth nonce s) (hgrants : Grants auth)
    {order : List Nat} {t : Nat} {rest : List PaiFinder.Input}
    (hinbox : (s.peer q).paiInbox = .receivedSubspaceCapRequest t :: rest)
    (hcovers : (s.exchange.finder q).Covers order) {f' : PaiFinder}
    (hreacts : PaiFinder.Reacts (s.exchange.finder q) (s.exchange.known q) (s.exchange.replied q)
      order (.receivedSubspaceCapRequest t) (.ok ()) f')
    (htimely : ∀ y ∈ (s.exchange.finder q.other).fragments[t]?,
      ∀ o < (s.exchange.finder q).fragments.length,
      ∀ x ∈ (s.exchange.finder q).fragments[o]?, x.fragment = y.fragment →
        o < s.exchange.replied q)
    {new : List PaiFinder.Output} (hnew : f'.outputs = (s.exchange.finder q).outputs ++ new) :
    ∃ cap, .signAndSendSubspaceCap t cap ∈ new := by
  have hopen : t ∈ s.openHandles q.other := by
    rw [mem_openHandles, Role.other_other, hinbox]
    exact .inl (.inr ⟨_, List.mem_cons_self, rfl⟩)
  have hasked := (h.accounted q.other).requested t hopen
  obtain ⟨hrequests, o, hacted⟩ := h.causal.exchange.requested q.other t hasked
  obtain ⟨y, x, hy, hx, hmeets⟩ := h.causal.exchange.meetAt_of_acted hacted
  rw [Role.other_other] at hx
  have hxf := (h.mem_fragments (List.mem_of_getElem? hx)).1
  have hyf := (h.mem_fragments (List.mem_of_getElem? hy)).1
  -- our fragment belongs to an authorisation with a subspace capability
  have hcap := hgrants q.other y hyf x (by rwa [Role.other_other]) ((requests_iff hy).mp hrequests)
    hmeets
  rw [Role.other_other] at hcap
  obtain ⟨cap, hcap⟩ := Option.ne_none_iff_exists'.mp hcap
  have hlt := htimely y hy o (List.getElem?_eq_some_iff.mp hx).1 x hx hmeets.1.symm
  have horder := (h.causal.exchange.knows q).mem_order_own hcovers hx
  cases hreacts with
  | @request _ y' hy' =>
      have heq := getElem?_of_isPrefix (PaiExchange.known_isPrefix s.exchange q) hy'
      obtain rfl : y' = y := Option.some.inj (heq.symm.trans hy)
      have hnew := List.append_cancel_left hnew
      refine ⟨cap, ?_⟩
      rw [← hnew]
      refine List.mem_map.mpr ⟨cap, List.mem_filterMap.mpr ⟨o, horder, ?_⟩, rfl⟩
      unfold PaiFinder.answerTo
      simp only [hx, hlt, hmeets.1.symm, and_self, if_true]
      rw [PaiFinder.authorisation_of_mem_fragmentsOf hxf, hcap]

variable [WillowDataModel]

theorem Singles.pursued_takePai (hlaw : PaiScheme.Lawful) (h : Singles auth nonce s)
    (hgrants : Grants auth) (hp : ∀ p, s.Pursued p) {order : List Nat}
    {drained : List ReadAuthorisation} (htimely : Timely s (.takePai q order drained))
    (hstep : PaiSession.step s (.takePai q order drained) = some s') : ∀ p, s'.Pursued p := by
  obtain ⟨input, rest, hfailed, hinbox, hex, hs'⟩ := step_takePai hstep
  have hreacts := (h.causal.exchange.input hlaw hex).1
  have hcovers := (PaiExchange.step_input hex).2.1
  rw [h.reacts_ok hinbox hreacts] at hreacts
  obtain ⟨hother, -, -⟩ := other_of_step hstep
  have hother : s'.peer q.other = s.peer q.other := hother
  have hfinder : s'.exchange.finder q.other = s.exchange.finder q.other :=
    (PaiExchange.finder_other_of_step hex).1
  obtain ⟨new, hnew, hexplained, hprocessed, -⟩ := h.processed (p := q) hlaw hex rfl hs' hfailed
  have hcontrol : s'.receivedControl = s.receivedControl := by rw [hs']
  have hunread := h.unread_of_processed hprocessed hcontrol
  have hunread' : s'.unread q.other = s.unread q.other := by
    rw [unread, unread, hother, hcontrol]
  have hmore : s.unread q ⊆ s'.unread q := by
    rw [hunread]
    exact List.subset_append_left _ _
  -- only the input itself leaves the inbox
  have hrest : ∀ i ∈ (s.peer q).paiInbox, i ≠ input → i ∈ (s'.peer q).paiInbox := by
    intro i hi hne
    rw [hprocessed.paiInbox]
    rw [hinbox, List.mem_cons] at hi
    exact hi.resolve_left hne
  refine Role.forall_of q ?_ ?_
  · obtain ⟨hkept, hback⟩ := requested_of_reacts hreacts
    obtain ⟨more, hlocal⟩ := PaiExchange.exists_local_of_reacts hreacts
    refine ⟨fun o t hacted hrequests => ?_, fun o ho => ?_⟩
    · rw [hlocal.acted] at hacted
      have hlt := ((h.causal.exchange.acted q o t).mp hacted).1.trans_le
        (h.causal.exchange.knows q).replies_le
      have hrequests : requests (s.exchange.finder q).fragments o = true := by
        unfold PaiFinder.requests at hrequests ⊢
        rwa [hlocal.fragments, List.getElem?_append_left hlt] at hrequests
      rcases (hp q).asked o t hacted hrequests with hmem | ⟨i, hi, hhandle⟩
      · exact hkept o hmem
      · refine .inr ⟨i, ?_, hhandle⟩
        rw [hnew]
        exact List.mem_append_left _ hi
    · -- a handle that is still requested is underway in the same place
      obtain ⟨hmem, hnot⟩ := hback o ho
      refine mem_openHandles_mono ((hp q).underway o hmem) hmore ?_ ?_ ?_
      · rw [hunread']
        exact List.Subset.refl _
      · rw [hother]
        exact fun i hi _ => hi
      · intro i hi ns heq
        exact hrest i hi fun hsame => hnot ns (hsame ▸ heq)
  · refine (hp q.other).of_same hfinder fun o ho => ?_
    by_cases hhead : input = .receivedSubspaceCapRequest o
    · -- the request is taken, and the reply is sent
      subst hhead
      simp only [Timely, hinbox] at htimely
      obtain ⟨cap, hcap⟩ := h.answered_of_request hgrants hinbox hcovers hreacts htimely hnew
      obtain ⟨message, hsign, hhandle, -, -⟩ := h.sign_of_explained (hexplained _ hcap)
      rw [mem_openHandles]
      refine .inr ⟨message.capability.grantedNamespace, .inl ⟨.paiReplySubspaceCapability message,
        ?_, by rw [ControlMessage.replied, hhandle]⟩⟩
      rw [Role.other_other, hunread]
      refine List.mem_append_right _ (List.mem_filterMap.mpr ⟨_, hcap, ?_⟩)
      unfold PaiPeer.controlMessage
      dsimp only [PaiPeer.caps] at hsign ⊢
      rw [hsign]
    · refine mem_openHandles_mono ho ?_ ?_ ?_ ?_
      · rw [hunread']
        exact List.Subset.refl _
      · rw [Role.other_other]
        exact hmore
      · rw [Role.other_other]
        intro i hi heq
        exact hrest i hi fun hsame => hhead (hsame ▸ eq_of_requested heq)
      · rw [hother]
        exact fun i hi _ _ => hi

theorem Singles.pursued_deliverIntersection (hlaw : PaiScheme.Lawful) (h : Singles auth nonce s)
    (hp : ∀ p, s.Pursued p) {order : List Nat}
    (hallowed : NamesOwnHandle s (.deliverIntersection q order))
    (hstep : PaiSession.step s (.deliverIntersection q order) = some s') : ∀ p, s'.Pursued p := by
  obtain ⟨hfailed, hex, hs'⟩ := step_deliverIntersection hstep
  obtain ⟨⟨message, handle, sent, ms, hd⟩, -⟩ := h.causal.exchange.deliver hlaw hex
  have hc := hd.checked
  obtain ⟨hother, -, -⟩ := other_of_step hstep
  have hother : s'.peer q.other = s.peer q.other := hother
  obtain ⟨new, hnew, -, hprocessed, -⟩ :=
    @Singles.processed _ _ _ _ _ _ _ q hlaw h _ hex rfl (s.peer q).paiInbox hs' hfailed
  have hcontrol : s'.receivedControl = s.receivedControl := by rw [hs']
  have hunread := h.unread_of_processed hprocessed hcontrol
  have hmore : s.unread q ⊆ s'.unread q := by
    rw [hunread]
    exact List.subset_append_left _ _
  have hunread' : s'.unread q.other = s.unread q.other := by
    rw [unread, unread, hother, hcontrol]
  -- a delivery takes nothing that is underway
  have hopen : ∀ p, ∀ o ∈ s.openHandles p, o ∈ s'.openHandles p := by
    refine Role.forall_of q (fun o ho => ?_) (fun o ho => ?_)
    · refine mem_openHandles_mono ho hmore (hunread'.symm ▸ List.Subset.refl _) ?_ ?_
      · rw [hother]
        exact fun i hi _ => hi
      · rw [hprocessed.paiInbox]
        exact fun i hi _ _ => hi
    · refine mem_openHandles_mono ho (hunread'.symm ▸ List.Subset.refl _) ?_ ?_ ?_
      · rw [Role.other_other]
        exact hmore
      · rw [Role.other_other, hprocessed.paiInbox]
        exact fun i hi _ => hi
      · rw [hother]
        exact fun i hi _ _ => hi
  refine Role.forall_of q ?_ ((hp q.other).of_same hd.other (hopen q.other))
  refine ⟨fun o t hacted hrequests => ?_, fun o ho => ?_⟩
  · rw [hc.fragments] at hrequests
    rw [hc.acted, List.mem_append] at hacted
    rw [hc.requested, hnew]
    rcases hacted with hacted | hmem
    · -- a match from before the delivery
      rcases (hp q).asked o t hacted hrequests with hmem | ⟨i, hi, hhandle⟩
      · exact .inl (Finset.mem_union_left _ hmem)
      · exact .inr ⟨i, List.mem_append_left _ hi, hhandle⟩
    · refine .inl (Finset.mem_union_right _ (List.mem_toFinset.mpr (List.mem_filter.mpr ?_)))
      exact ⟨List.mem_map.mpr ⟨_, hmem, rfl⟩, hrequests⟩
  · rw [hc.requested, Finset.mem_union, List.mem_toFinset, List.mem_filter, List.mem_map] at ho
    rcases ho with ho | ⟨⟨⟨o', t⟩, hmem, rfl⟩, hrequests⟩
    · exact hopen q o ((hp q).underway o ho)
    · -- the request names the handle
      have ho : o' = handle := by
        have hasked : (o', t) ∈ ms.filter fun m =>
            requests (s.exchange.finder q).fragments m.1 := List.mem_filter.mpr ⟨hmem, hrequests⟩
        rcases delivery_requests h.causal.exchange hallowed hd with hnil | ⟨-, t', hone⟩
        · rw [hnil] at hasked
          cases hasked
        · rw [hone] at hasked
          exact (Prod.mk.inj (List.mem_singleton.mp hasked)).1
      have hput : .requestSubspaceCapability handle ∈ new := by
        rw [hc.outputs, List.append_assoc] at hnew
        rw [← List.append_cancel_left hnew]
        refine List.mem_append_right _ (List.mem_filterMap.mpr ⟨_, hmem, ?_⟩)
        unfold PaiFinder.requests at hrequests
        cases hx : (s.exchange.finder q).fragments[o']? with
        | none => simp [hx] at hrequests
        | some x =>
            have hon : x.info.onIntersection = .requestSubspaceCap := by
              simpa [hx] using hrequests
            simp only [reaction, hx, hon]
      rw [mem_openHandles, ho]
      refine .inl (.inl ⟨.paiRequestSubspaceCapability handle, ?_, rfl⟩)
      rw [hunread]
      exact List.mem_append_right _ (List.mem_filterMap.mpr ⟨_, hput, rfl⟩)

/-- **One step** loses nothing that is pursued. -/
theorem Singles.pursued_step (hlaw : PaiScheme.Lawful) (h : Singles auth nonce s)
    (hgrants : Grants auth) (hp : ∀ p, s.Pursued p) {a : Action} (hallowed : Orderly auth s a)
    (hstep : PaiSession.step s a = some s') : ∀ p, s'.Pursued p := by
  cases a with
  | addInterests q interests => exact fun p => (hp p).of_inputs (onlyInputs_addInterests hstep)
  | deliverControl q => exact h.pursued_deliverControl hp hstep
  | deliverCapability q =>
      exact fun p => (hp p).of_inputs (onlyInputs_deliverCapability hstep)
  | takePai q order drained => exact h.pursued_takePai hlaw hgrants hp hallowed.timely hstep
  | deliverIntersection q order =>
      exact h.pursued_deliverIntersection hlaw hp hallowed.names hstep
  | takeIntersection q => exact fun p => (hp p).of_inputs (onlyInputs_takeIntersection hstep)

/-! ### Every run -/

/-- No intersection is put out for a less specific secondary fragment. -/
def Specific (s : PaiSession) : Prop :=
  ∀ p i x, .newIntersection i ∈ (s.exchange.finder p).outputs →
    (s.exchange.finder p).fragments[i.handle]? = some x → x.kind = .secondary →
    x.isMostSpecific = true

theorem Singles.specific_step (hlaw : PaiScheme.Lawful) (h : Singles auth nonce s)
    (hspecific : s.Specific) {a : Action} (hstep : PaiSession.step s a = some s') :
    s'.Specific := by
  intro p i x hi hx hkind
  rcases exchange_of_step hstep with heq | ⟨a', -, hex⟩
  · rw [heq] at hi hx
    exact hspecific p i x hi hx hkind
  · have hgrow := h.causal.exchange.fragments_isPrefix hlaw hex p
    rcases h.causal.exchange.found hlaw hex hi with hold | ⟨x', t, y, hfound⟩
    · have hget := List.getElem?_eq_getElem (h.of_found hold).2.2.2
      have hsame := (getElem?_of_isPrefix hgrow hget).symm.trans hx
      exact hspecific p i x hold (hget.trans hsame) hkind
    · obtain rfl : x' = x :=
        Option.some.inj ((getElem?_of_isPrefix hgrow hfound.own).symm.trans hx)
      rcases hfound.cause with hs | ⟨hon, -⟩
      · exact hs
      · obtain ⟨hprimary, -⟩ := PaiExchange.of_replyReadCap hon
        rw [hkind] at hprimary
        cases hprimary

theorem pursued_of_orderly (hlaw : PaiScheme.Lawful) {scalar : Role → PsiScalar}
    {secrets : Role → SecretStorage} (hhonest : ∀ p, Honest (secrets p) (auth p))
    (hgrants : Grants auth)
    (hs : Transition.Reachable PaiSession.step (Orderly auth) (start scalar nonce secrets) s) :
    (∀ p, s.Pursued p) ∧ s.Specific := by
  have hall : Singles auth nonce s ∧ (∀ p, s.Pursued p) ∧ s.Specific := by
    refine hs.invariant
      (P := fun s => Singles auth nonce s ∧ (∀ p, s.Pursued p) ∧ s.Specific) ?_ ?_
    · refine ⟨singles_of_reachable hlaw hhonest .refl, pursued_start scalar nonce secrets, ?_⟩
      intro p i x hi
      simp [start, PaiExchange.start] at hi
    · rintro s a s' ⟨h, hp, hspecific⟩ hallowed hstep
      exact ⟨h.step hlaw hallowed hstep, h.pursued_step hlaw hgrants hp hallowed hstep,
        h.specific_step hlaw hspecific hstep⟩
  exact hall.2

end

/-! ## One selective authorisation -/

/-- The secondary fragment for a prefix of the path. -/
theorem exists_secondary (hlaw : PaiScheme.Lawful) (a : ReadAuthorisation)
    (hne : a.readCap.grantedArea.subspace ≠ .any) {q : Path}
    (hq : q.IsPrefixOf a.readCap.grantedArea.path) : ∃ x ∈ fragmentsOf a, x.kind = .secondary ∧
      x.fragment.intoParts = (a.namespaceId, .any, q) ∧
      (x.isMostSpecific = true ↔ q = a.readCap.grantedArea.path) := by
  have hspecific : decide (q = a.readCap.grantedArea.path) = true ↔
      q = a.readCap.grantedArea.path := decide_eq_true_iff
  refine ⟨⟨a, .pair (a.namespaceId, q), .secondary, decide (q = a.readCap.grantedArea.path)⟩, ?_,
    rfl, rfl, hspecific⟩
  exact (PaiFinder.mem_fragmentsOf hlaw).mpr ⟨rfl, q, hq, hspecific, .inr ⟨rfl, hne, rfl⟩⟩

variable {auth : Role → ReadAuthorisation} {r : Role}

/-- Secondary fragments of the one meet primary ones of the other, for one path. -/
theorem Selective.of_meets (hlaw : PaiScheme.Lawful) (h : Selective auth r) {x y : LocalFragment}
    (hx : x ∈ fragmentsOf (auth r)) (hy : y ∈ fragmentsOf (auth r.other)) (hmeets : x.Meets y) :
    x.kind = .secondary ∧ y.kind = .primary ∧ ∃ q : Path,
      q.IsPrefixOf (grantedPath auth r) ∧ q.IsPrefixOf (grantedPath auth r.other) ∧
      (x.isMostSpecific = true ↔ q = grantedPath auth r) ∧
      (y.isMostSpecific = true ↔ q = grantedPath auth r.other) ∧
      y.fragment.intoParts = ((auth r).namespaceId, .any, q) := by
  obtain ⟨hfragment, -⟩ := hmeets
  obtain ⟨-, q, hq, hxq, hxparts⟩ := (PaiFinder.mem_fragmentsOf hlaw).mp hx
  obtain ⟨-, q', hq', hyq, hyparts⟩ := (PaiFinder.mem_fragmentsOf hlaw).mp hy
  rw [h.complete] at hyparts
  obtain ⟨hyk, hyparts⟩ := hyparts.resolve_right fun hsecondary => hsecondary.2.1 rfl
  rw [hfragment, hyparts, h.namespaceId] at hxparts
  rcases hxparts with ⟨-, hparts⟩ | ⟨hxk, -, hparts⟩
  · exact absurd (Prod.mk.inj (Prod.mk.inj hparts).2).1.symm h.selective
  · obtain rfl : q' = q := (Prod.mk.inj (Prod.mk.inj hparts).2).2
    exact ⟨hxk, hyk, q', hq, hq', hxq, hyq, by rw [hyparts, h.namespaceId]⟩

theorem Selective.grants (hlaw : PaiScheme.Lawful) (h : Selective auth r) : Grants auth := by
  intro p x hx y hy hrequests hmeets
  rcases Role.eq_or_eq_other r p with rfl | rfl
  · exact h.subspaceCap
  · rw [Role.other_other] at hy
    obtain ⟨-, hxk, -⟩ := h.of_meets hlaw hy hx hmeets.symm
    rw [hrequests.1] at hxk
    cases hxk

section

variable [Meadowcap] [ChallengeHash] {nonce : Role → AccessChallenge}

omit [Meadowcap] [ChallengeHash] in
/-- Nothing is remembered when nothing is on its way. -/
theorem not_mem_openHandles_of_quiet (hquiet : s.Quiet) (o : Nat) : o ∉ s.openHandles p := by
  have hunread : ∀ p, s.unread p = [] := by
    intro p
    have hlen := hquiet.control p.other
    rw [Role.other_other] at hlen
    rw [unread, hlen, List.drop_length]
  rw [mem_openHandles]
  simp [hunread, hquiet.paiInbox]

/-- The selective side finds its authorisation with the reply. -/
theorem Singles.found_of_selective (hlaw : PaiScheme.Lawful) (h : Singles auth nonce s)
    (hselective : Selective auth r) (hpursued : s.Pursued r) (hquiet : s.Quiet)
    (hsubmitted : ∀ p, auth p ∈ (s.exchange.finder p).submitted)
    (hle : (grantedPath auth r).IsPrefixOf (grantedPath auth r.other)) : Found auth s r := by
  obtain ⟨x, hx, hxk, hxparts, hxspecific⟩ := exists_secondary hlaw (auth r) hselective.selective
    (List.prefix_refl (grantedPath auth r).components)
  obtain ⟨y, hy, hyk, hyparts, -⟩ := exists_primary hlaw (auth r.other) hle
  rw [hselective.namespaceId, hselective.complete] at hyparts
  have hmeets : x.Meets y := by
    refine ⟨Fragment.intoParts_injective (hxparts.trans hyparts.symm), fun hboth => ?_⟩
    rw [hyk] at hboth
    cases hboth.2
  obtain ⟨o, ho⟩ := List.mem_iff_getElem?.mp (h.mem_of_submitted (hsubmitted r) hx)
  obtain ⟨t, ht⟩ := List.mem_iff_getElem?.mp (h.mem_of_submitted (hsubmitted r.other) hy)
  have hacted := h.causal.exchange.acted_of_quiet hquiet.intersection ⟨x, y, ho, ht, hmeets⟩
  have hrequests := (requests_iff ho).mpr ⟨hxk, hxspecific.mpr rfl⟩
  rcases hpursued.asked o t hacted hrequests with hmem | ⟨i, hi, -⟩
  · exact absurd (hpursued.underway o hmem) (not_mem_openHandles_of_quiet hquiet o)
  · obtain ⟨hauth, -⟩ := h.of_found hi
    exact ⟨i.handle, hauth ▸ hi⟩

/-- What the selective side has found is for its whole path. -/
theorem Singles.path_of_selective (hlaw : PaiScheme.Lawful) (h : Singles auth nonce s)
    (hselective : Selective auth r) (hspecific : s.Specific) {i : PaiIntersection}
    (hi : .newIntersection i ∈ (s.exchange.finder r).outputs) :
    (grantedPath auth r).IsPrefixOf (grantedPath auth r.other) ∧
      ∃ x, (s.exchange.finder r).fragments[i.handle]? = some x ∧ x.kind = .secondary ∧
        x.fragment.intoParts = ((auth r).namespaceId, .any, grantedPath auth r) := by
  obtain ⟨-, t, x, y, hx, hy, hmeets⟩ := h.causal.found r i hi
  have hxf := (h.mem_fragments (List.mem_of_getElem? hx)).1
  have hyf := (h.mem_fragments (List.mem_of_getElem? hy)).1
  obtain ⟨hxk, -, q, -, hle, hxq, -, hparts⟩ := hselective.of_meets hlaw hxf hyf hmeets
  obtain rfl := hxq.mp (hspecific r i x hi hx hxk)
  refine ⟨hle, x, hx, hxk, ?_⟩
  rw [hmeets.1]
  exact hparts

/-- The other side finds its authorisation with the match or with the read capability. -/
theorem Singles.found_of_complete (hlaw : PaiScheme.Lawful) (h : Singles auth nonce s)
    (hselective : Selective auth r) (hspecific : s.Specific) (hquiet : s.Quiet)
    (hsubmitted : ∀ p, auth p ∈ (s.exchange.finder p).submitted) (hfound : Found auth s r) :
    Found auth s r.other := by
  obtain ⟨m, hm, i, hi, hhandle⟩ := h.sent_of_quiet hquiet hfound
  obtain ⟨hle, x, hx, hxk, hxparts⟩ := h.path_of_selective hlaw hselective hspecific hi
  have hxf := (h.mem_fragments (List.mem_of_getElem? hx)).1
  obtain ⟨y, hy, hyk, hyparts, hyspecific⟩ := exists_primary hlaw (auth r.other) hle
  rw [hselective.namespaceId, hselective.complete] at hyparts
  have hmeets : y.Meets x := by
    refine ⟨Fragment.intoParts_injective (hyparts.trans hxparts.symm), fun hboth => ?_⟩
    rw [hyk] at hboth
    cases hboth.1
  have hon := onIntersection_primary hyk
  cases hs : y.isMostSpecific with
  | true =>
      rw [hs, if_pos rfl] at hon
      exact h.found_of_meets hquiet hsubmitted hy (by rwa [Role.other_other]) hmeets hon
  | false =>
      rw [hs, if_neg (by simp)] at hon
      refine h.answered_of_quiet hquiet (m := m) ?_ x ?_ y hy hmeets hon
      · rwa [Role.other_other]
      · rw [Role.other_other, ← hhandle]
        exact hx

variable [WillowDataModel]

/-- **Agreement with a selective capability.** When nothing is on its way, both sessions
have found their authorisation if and only if the path of the selective one is a prefix
of the other, in every run in which requests name the own handle, and requests and read
capabilities are taken after the replies that they are about. -/
theorem selective_agree_iff (hlaw : PaiScheme.Lawful) (scalar : Role → PsiScalar)
    (nonce : Role → AccessChallenge) (secrets : Role → SecretStorage)
    (auth : Role → ReadAuthorisation) (hhonest : ∀ p, Honest (secrets p) (auth p)) (r : Role)
    (hselective : Selective auth r) (s : PaiSession)
    (hs : Transition.Reachable PaiSession.step (Orderly auth) (start scalar nonce secrets) s)
    (hquiet : s.Quiet) (hknown : ∀ p, (s.peer p).intersections.interests (auth p) ≠ none) :
    (∀ p, Found auth s p) ↔ (grantedPath auth r).IsPrefixOf (grantedPath auth r.other) := by
  have h := singles_of_reachable hlaw hhonest hs
  obtain ⟨hpursued, hspecific⟩ :=
    pursued_of_orderly hlaw hhonest (hselective.grants hlaw) hs
  have hsubmitted : ∀ p, auth p ∈ (s.exchange.finder p).submitted :=
    fun p => h.submitted_of_quiet hquiet (hknown p)
  constructor
  · intro hfound
    obtain ⟨k, hk⟩ := hfound r
    exact (h.path_of_selective hlaw hselective hspecific hk).1
  · intro hle
    have hfound := h.found_of_selective hlaw hselective (hpursued r) hquiet hsubmitted hle
    exact Role.forall_of r hfound
      (h.found_of_complete hlaw hselective hspecific hquiet hsubmitted hfound)

end

end PaiSession

end Model

/-! ### A request for the wrong handle -/

namespace PaiSession

open IrohWillow.Sample PaiSession.Sample

attribute [local instance] countingScheme acceptingSignatures plainHash noAreas

/-- Alfie may read one subspace, Betty all of them. -/
def Sample.oneAndAll : Role → ReadAuthorisation
  | .alfie => Sample.oneSubspace
  | .betty => Sample.allSubspaces

theorem Sample.oneAndAll_selective : Selective Sample.oneAndAll .alfie where
  namespaceId := rfl
  selective := by decide
  complete := rfl
  subspaceCap := by decide

theorem Sample.oneAndAll_paths : (grantedPath Sample.oneAndAll .alfie).IsPrefixOf
    (grantedPath Sample.oneAndAll .betty) := by decide

/-- Betty's bind comes last, and Alfie asks about the handle of her fragment. -/
def Sample.unanswered : List Action :=
  Sample.bindComesLast ++ deliver .betty 1 ++ [.deliverControl .betty, .takePai .betty [0, 1] [],
    .takeIntersection .betty, .deliverCapability .alfie, .takePai .alfie [0, 1] []]

/-- Betty's bind comes first. -/
def Sample.answered : List Action :=
  Sample.bindComesFirst ++ [.takePai .alfie [0, 1, 2] []] ++ sendReadCapability .alfie ++
    sendReadCapability .betty

instance (auth : Role → ReadAuthorisation) (s : PaiSession) (a : Action) :
    Decidable (Orderly auth s a) :=
  decidable_of_iff (SubmitsOnly auth s a ∧ Timely s a ∧ NamesOwnHandle s a)
    ⟨fun h => ⟨h.1, h.2.1, h.2.2⟩, fun h => ⟨h.submits, h.timely, h.names⟩⟩

set_option maxRecDepth 4000 in
/-- Alfie finds nothing. -/
theorem wrong_handle_finds_nothing :
    ¬ ∀ auth : Role → ReadAuthorisation, (∀ p, Honest Sample.secrets (auth p)) →
      Selective auth .alfie → (grantedPath auth .alfie).IsPrefixOf (grantedPath auth .betty) →
      ∀ s, Transition.Reachable step (SubmitsOnly auth) session s → s.Quiet →
        (∀ p, (s.peer p).intersections.interests (auth p) ≠ none) → ∀ p, Found auth s p := by
  intro h
  have hrun : ((Transition.run step session Sample.unanswered).map fun s =>
      (Sample.settled Sample.oneAndAll s, Sample.intersections s .alfie)) = some (true, []) := by
    rfl
  obtain ⟨s, hs, heq⟩ := Option.map_eq_some_iff.mp hrun
  obtain ⟨hsettled, hnothing⟩ := Prod.mk.inj heq
  obtain ⟨hquiet, hknown⟩ := Sample.of_settled hsettled
  obtain ⟨k, hk⟩ := h Sample.oneAndAll (fun _ => Sample.honest) Sample.oneAndAll_selective
    Sample.oneAndAll_paths s (.of_run hs (by decide)) hquiet hknown .alfie
  have hmem := Sample.mem_intersections.mpr hk
  rw [hnothing] at hmem
  cases hmem

set_option maxRecDepth 4000 in
theorem selective_agree_answered :
    ∃ s, Transition.Reachable step (Orderly Sample.oneAndAll) session s ∧ s.Quiet ∧
      ∀ p, Found Sample.oneAndAll s p := by
  have hrun : ((Transition.run step session Sample.answered).map
      (Sample.settled Sample.oneAndAll)) = some true := by rfl
  obtain ⟨s, hs, hsettled⟩ := Option.map_eq_some_iff.mp hrun
  obtain ⟨hquiet, hknown⟩ := Sample.of_settled hsettled
  have hreach : Transition.Reachable step (Orderly Sample.oneAndAll) session s :=
    .of_run hs (by decide)
  have hagree := selective_agree_iff countingScheme_lawful _ _ _ Sample.oneAndAll
    (fun _ => Sample.honest) .alfie Sample.oneAndAll_selective s hreach hquiet hknown
  exact ⟨s, hreach, hquiet, hagree.mpr Sample.oneAndAll_paths⟩

end PaiSession

end IrohWillow
