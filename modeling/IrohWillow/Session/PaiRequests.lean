import IrohWillow.Session.PaiCausality

/-!
# Requests for subspace capabilities

A `PaiFinder` whose most specific secondary fragment is matched asks the other one
for its subspace capability, and remembers the handle of the fragment. The request
should name that handle. It does when the match is found with a reply: then the
handle at hand is that of the own fragment. When it is found with a bind, the
handle at hand is that of the fragment of the peer.

Where a request names the own handle, once, and is answered once, no reply is
refused: every request or reply on its way stands for a handle that is remembered.
-/

namespace IrohWillow

/-- The handle that a message asks about. -/
def ControlMessage.requested : ControlMessage → Option Nat
  | .paiRequestSubspaceCapability handle => some handle
  | .paiReplySubspaceCapability _ => none
  | .commitmentReveal _ => none

/-- The handle that a message answers, and the namespace of the capability. -/
def ControlMessage.replied : ControlMessage → Option (Nat × NamespaceId)
  | .paiReplySubspaceCapability message =>
      some (message.handle, message.capability.grantedNamespace)
  | .paiRequestSubspaceCapability _ => none
  | .commitmentReveal _ => none

/-- The subspace capability is requested when the fragment is matched. -/
def LocalFragment.Requests (x : LocalFragment) : Prop :=
  x.kind = .secondary ∧ x.isMostSpecific = true

instance (x : LocalFragment) : Decidable x.Requests := inferInstanceAs (Decidable (_ ∧ _))

section Model

variable [PaiScheme]

namespace PaiFinder

def Input.requested : Input → Option Nat
  | .receivedSubspaceCapRequest handle => some handle
  | _ => none

def Input.replied : Input → Option (Nat × NamespaceId)
  | .receivedVerifiedSubspaceCapReply handle namespaceId => some (handle, namespaceId)
  | _ => none

def Output.requested : Output → Option Nat
  | .requestSubspaceCapability handle => some handle
  | _ => none

def Output.replied : Output → Option (Nat × NamespaceId)
  | .signAndSendSubspaceCap handle capability => some (handle, capability.grantedNamespace)
  | _ => none

end PaiFinder

namespace PaiSession

open PaiFinder (requests reaction messages)

/-- **The condition.** When a bind comes, a fragment of ours that was replied to and
meets it does not ask for the subspace capability, unless it has the same handle as
the new fragment and none is asked for yet. When a reply comes for a fragment of ours
that asks, one fragment of the peer at most meets it. A request is answered with one
subspace capability at most, which is for the namespace of the fragment. -/
def NamesOwnHandle (s : PaiSession) : Action → Prop
  | .deliverIntersection p _ =>
      match (s.exchange.sent p.other)[s.exchange.received p]? with
      | some (.bindFragment _ _) =>
          ∀ y ∈ (s.exchange.finder p.other).fragments[(s.exchange.known p).length]?,
            ∀ o < s.exchange.replied p, ∀ x ∈ (s.exchange.finder p).fragments[o]?,
              x.Requests → x.Meets y → o = (s.exchange.known p).length ∧
                o ∉ (s.exchange.finder p).requestedSubspaceCapHandles
      | some (.replyFragment h _) =>
          ∀ x ∈ (s.exchange.finder p).fragments[h]?, x.Requests →
            ∀ t < (s.exchange.known p).length, ∀ t' < (s.exchange.known p).length,
              ∀ y ∈ (s.exchange.known p)[t]?, ∀ y' ∈ (s.exchange.known p)[t']?,
                x.Meets y → x.Meets y' → t = t'
      | none => True
  | .takePai p _ _ =>
      match (s.peer p).paiInbox with
      | .receivedSubspaceCapRequest t :: _ =>
          ∀ y ∈ (s.exchange.known p)[t]?, ∀ o < s.exchange.replied p, ∀ o' < s.exchange.replied p,
            ∀ x ∈ (s.exchange.finder p).fragments[o]?, ∀ x' ∈ (s.exchange.finder p).fragments[o']?,
              x.fragment = y.fragment → x'.fragment = y.fragment →
              ∀ cap ∈ x.authorisation.subspaceCap, ∀ cap' ∈ x'.authorisation.subspaceCap,
                o = o' ∧ cap.grantedNamespace = y.info.namespaceId
      | _ => True
  | _ => True

/-- The handles that the finder has asked about, in order. -/
def requestedHandles (s : PaiSession) (p : Role) : List Nat :=
  (s.exchange.finder p).outputs.filterMap PaiFinder.Output.requested

/-- **Requests.** -/
structure RequestsOwn (s : PaiSession) (p : Role) : Prop where
  /-- Every request names the handle that was added to `requested_subspace_cap_handles`
  for it, -/
  named : requestedHandles s p = ((s.exchange.finder p).acted.filter fun m =>
    requests (s.exchange.finder p).fragments m.1).map Prod.fst
  /-- a handle of ours for a secondary fragment that meets one of the peer. -/
  own : ∀ h ∈ requestedHandles s p, ∃ x t, (s.exchange.finder p).fragments[h]? = some x ∧
    x.Requests ∧ s.exchange.MeetAt p h t
  /-- A reply that is taken next is accepted, -/
  accepted : ∀ h ns rest, (s.peer p).paiInbox = .receivedVerifiedSubspaceCapReply h ns :: rest →
    h ∈ (s.exchange.finder p).requestedSubspaceCapHandles ∧
      ∃ x, (s.exchange.finder p).fragments[h]? = some x ∧ x.info.namespaceId = ns
  /-- and none was refused. -/
  notRefused : s.exchange.failed p ≠ some .subspaceCapRequestForInvalidHandle ∧
    s.exchange.failed p ≠ some .subspaceCapRequestForWrongNamespace

/-! ## Requests and replies on their way -/

/-- The messages of the control channel that the other session has not taken. -/
def unread (s : PaiSession) (p : Role) : List ControlMessage :=
  (s.peer p).control.drop (s.receivedControl p.other)

/-- The handles of the requests on their way. -/
def openRequests (s : PaiSession) (p : Role) : List Nat :=
  (s.unread p).filterMap ControlMessage.requested ++
    (s.peer p.other).paiInbox.filterMap PaiFinder.Input.requested

/-- The replies on their way to a session. -/
def openReplies (s : PaiSession) (p : Role) : List (Nat × NamespaceId) :=
  (s.unread p.other).filterMap ControlMessage.replied ++
    (s.peer p).paiInbox.filterMap PaiFinder.Input.replied

/-- The handles of the requests and replies on their way. -/
def openHandles (s : PaiSession) (p : Role) : List Nat :=
  s.openRequests p ++ (s.openReplies p).map Prod.fst

/-- **The account.** Each request or reply on its way stands for one handle that is
remembered, and a reply is for the namespace of its fragment. -/
structure Accounted (s : PaiSession) (p : Role) : Prop where
  received : s.receivedControl p.other ≤ (s.peer p).control.length
  nodup : (s.openHandles p).Nodup
  requested : ∀ h ∈ s.openHandles p, h ∈ (s.exchange.finder p).requestedSubspaceCapHandles
  replies : ∀ r ∈ s.openReplies p, ∃ x, (s.exchange.finder p).fragments[r.1]? = some x ∧
    x.info.namespaceId = r.2
  named : requestedHandles s p = ((s.exchange.finder p).acted.filter fun m =>
    requests (s.exchange.finder p).fragments m.1).map Prod.fst
  notRefused : s.exchange.failed p ≠ some .subspaceCapRequestForInvalidHandle ∧
    s.exchange.failed p ≠ some .subspaceCapRequestForWrongNamespace

theorem accounted_start [ChallengeHash] (scalar : Role → PsiScalar) (nonce : Role → AccessChallenge)
    (secrets : Role → SecretStorage) (p : Role) : Accounted (start scalar nonce secrets) p := by
  have hhandles : (start scalar nonce secrets).openHandles p = [] := rfl
  have hreplies : (start scalar nonce secrets).openReplies p = [] := rfl
  refine ⟨?_, ?_, ?_, ?_, rfl, ?_⟩
  · simp [start]
  · rw [hhandles]
    exact List.nodup_nil
  · simp [hhandles]
  · simp [hreplies]
  · simp [start, PaiExchange.start]

variable {s s' : PaiSession} {p q : Role}

/-! ### Moving messages -/

omit [PaiScheme] in
theorem nodup_of_subperm {α : Type} {l l' : List α} (h : l.Subperm l') (hl : l'.Nodup) :
    l.Nodup := by
  obtain ⟨k, hperm, hsub⟩ := h
  exact hperm.nodup_iff.mp (hl.sublist hsub)

omit [PaiScheme] in
theorem subperm_map {α β : Type} (f : α → β) {l l' : List α} (h : l.Subperm l') :
    (l.map f).Subperm (l'.map f) := by
  obtain ⟨k, hperm, hsub⟩ := h
  exact ⟨k.map f, hperm.map f, hsub.map f⟩

omit [PaiScheme] in
/-- A message that moves to an inbox, or is dropped, counts once. -/
theorem subperm_of_moved {α β γ : Type} {f : α → Option γ} {g : β → Option γ} {m : α} {i : β}
    (hsame : g i = f m) {rest : List α} {inbox inputs : List β} (hinputs : inputs.Sublist [i]) :
    (rest.filterMap f ++ (inbox ++ inputs).filterMap g).Subperm
      ((m :: rest).filterMap f ++ inbox.filterMap g) := by
  have hone : (inputs.filterMap g).Subperm ([m].filterMap f) := by
    have hsub := (hinputs.filterMap g).subperm
    simpa only [List.filterMap_cons, List.filterMap_nil, hsame] using hsub
  rw [List.filterMap_append, ← List.append_assoc]
  refine (((List.Subperm.refl _).append hone)).trans (List.Perm.subperm ?_)
  rw [show m :: rest = [m] ++ rest from rfl, List.filterMap_append]
  exact (List.perm_append_comm).trans (by rw [List.append_assoc])

/-- The input that a message of the control channel becomes. -/
def inputOf : ControlMessage → PaiFinder.Input
  | .commitmentReveal _ => .established
  | .paiRequestSubspaceCapability handle => .receivedSubspaceCapRequest handle
  | .paiReplySubspaceCapability message =>
      .receivedVerifiedSubspaceCapReply message.handle message.capability.grantedNamespace

theorem requested_inputOf (m : ControlMessage) : (inputOf m).requested = m.requested := by
  cases m <;> rfl

theorem replied_inputOf (m : ControlMessage) : (inputOf m).replied = m.replied := by
  cases m <;> rfl

section

variable [Meadowcap] [ChallengeHash]

theorem paiInbox_onControlMessage (peer : PaiPeer) (p : Role) (m : ControlMessage) :
    (peer.onControlMessage p m).control = peer.control ∧ ∃ inputs : List PaiFinder.Input,
      inputs.Sublist [inputOf m] ∧
        (peer.onControlMessage p m).paiInbox = peer.paiInbox ++ inputs := by
  cases m with
  | commitmentReveal nonce =>
      simp only [PaiPeer.onControlMessage]
      split
      · exact ⟨rfl, [], List.nil_sublist _, by simp [PaiPeer.fail]⟩
      · exact ⟨rfl, _, List.Sublist.refl _, rfl⟩
  | paiRequestSubspaceCapability handle =>
      simp only [PaiPeer.onControlMessage]
      split
      · exact ⟨rfl, [], List.nil_sublist _, by simp [PaiPeer.fail]⟩
      · exact ⟨rfl, _, List.Sublist.refl _, rfl⟩
  | paiReplySubspaceCapability message =>
      simp only [PaiPeer.onControlMessage]
      split
      · exact ⟨rfl, [], List.nil_sublist _, by simp [PaiPeer.fail]⟩
      · split
        · exact ⟨rfl, [], List.nil_sublist _, by simp [PaiPeer.fail, PaiPeer.challenged]⟩
        · exact ⟨rfl, _, List.Sublist.refl _, rfl⟩

omit [ChallengeHash] in
theorem paiInbox_onReadCapability (peer : PaiPeer) (m : SetupBindReadCapability) :
    (peer.onReadCapability m).control = peer.control ∧ ∃ inputs : List PaiFinder.Input,
      inputs.filterMap PaiFinder.Input.requested = [] ∧
      inputs.filterMap PaiFinder.Input.replied = [] ∧
        (peer.onReadCapability m).paiInbox = peer.paiInbox ++ inputs := by
  simp only [PaiPeer.onReadCapability]
  split
  · exact ⟨rfl, [], rfl, rfl, by simp [PaiPeer.fail, PaiPeer.challenged]⟩
  · exact ⟨rfl, _, rfl, rfl, rfl⟩

end

/-- The finder has not requested anything new, and nothing new is on its way. -/
structure Kept (s s' : PaiSession) (p : Role) : Prop where
  finder : s'.exchange.finder p = s.exchange.finder p
  received : s'.receivedControl p.other ≤ (s'.peer p).control.length
  handles : (s'.openHandles p).Subperm (s.openHandles p)
  replies : s'.openReplies p ⊆ s.openReplies p
  failed : s'.exchange.failed p = s.exchange.failed p

theorem Accounted.of_kept (h : s.Accounted p) (hk : Kept s s' p) : s'.Accounted p where
  received := hk.received
  nodup := nodup_of_subperm hk.handles h.nodup
  requested k hmem := by
    rw [hk.finder]
    exact h.requested k (hk.handles.subset hmem)
  replies r hr := by
    rw [hk.finder]
    exact h.replies r (hk.replies hr)
  named := by
    rw [requestedHandles, hk.finder]
    exact h.named
  notRefused := by
    rw [hk.failed]
    exact h.notRefused

/-! ### Steps that only move messages -/

section

variable [Meadowcap] [ChallengeHash] [WillowDataModel]

/-- Inputs were added to inboxes, none for the account, and nothing else changed. -/
structure OnlyInputs (s s' : PaiSession) : Prop where
  exchange : s'.exchange = s.exchange
  received : s'.receivedControl = s.receivedControl
  control : ∀ q, (s'.peer q).control = (s.peer q).control
  inbox : ∀ q, ∃ inputs : List PaiFinder.Input,
    inputs.filterMap PaiFinder.Input.requested = [] ∧
    inputs.filterMap PaiFinder.Input.replied = [] ∧
    (s'.peer q).paiInbox = (s.peer q).paiInbox ++ inputs

omit [Meadowcap] [ChallengeHash] [WillowDataModel] in
theorem OnlyInputs.openRequests (h : OnlyInputs s s') (p : Role) :
    s'.openRequests p = s.openRequests p := by
  obtain ⟨inputs, hreq, -, hq⟩ := h.inbox p.other
  have hunread : s'.unread p = s.unread p := by
    rw [unread, h.control, h.received]
    rfl
  simp [PaiSession.openRequests, hunread, hq, hreq]

omit [Meadowcap] [ChallengeHash] [WillowDataModel] in
theorem OnlyInputs.openReplies (h : OnlyInputs s s') (p : Role) :
    s'.openReplies p = s.openReplies p := by
  obtain ⟨inputs, -, hrep, hq⟩ := h.inbox p
  have hunread : s'.unread p.other = s.unread p.other := by
    rw [unread, h.control, h.received]
    rfl
  simp [PaiSession.openReplies, hunread, hq, hrep]

omit [Meadowcap] [ChallengeHash] [WillowDataModel] in
theorem Accounted.of_inputs (h : s.Accounted p) (hinputs : OnlyInputs s s') : s'.Accounted p := by
  refine h.of_kept ⟨by rw [hinputs.exchange], ?_, ?_, ?_, by rw [hinputs.exchange]⟩
  · rw [hinputs.received, hinputs.control]
    exact h.received
  · rw [openHandles, hinputs.openRequests, hinputs.openReplies]
    exact List.Subperm.refl _
  · rw [hinputs.openReplies]
    exact List.Subset.refl _

theorem onlyInputs_addInterests {interests : List (ReadAuthorisation × List AreaOfInterest)}
    (hstep : step s (.addInterests q interests) = some s') : OnlyInputs s s' := by
  obtain ⟨-, rfl⟩ := step_addInterests hstep
  refine ⟨rfl, rfl, Role.forall_of q (by simp) (by simp [q.other_ne]), ?_⟩
  exact Role.forall_of q ⟨[], rfl, rfl, by simp⟩ ⟨[], rfl, rfl, by simp [q.other_ne]⟩

theorem onlyInputs_deliverCapability (hstep : step s (.deliverCapability q) = some s') :
    OnlyInputs s s' := by
  obtain ⟨message, -, -, rfl⟩ := step_deliverCapability hstep
  obtain ⟨hcontrol, inputs, hreq, hrep, hinbox⟩ := paiInbox_onReadCapability (s.peer q) message
  refine ⟨rfl, rfl, Role.forall_of q (by simpa using hcontrol) (by simp [q.other_ne]), ?_⟩
  exact Role.forall_of q ⟨inputs, hreq, hrep, by simpa using hinbox⟩
    ⟨[], rfl, rfl, by simp [q.other_ne]⟩

/-- Taking an input of the intersection finder submits authorisations. -/
theorem onlyInputs_takeIntersection (hstep : step s (.takeIntersection q) = some s') :
    OnlyInputs s s' := by
  obtain ⟨peer, hfailed, hpeer, rfl⟩ := step_takeIntersection hstep
  obtain ⟨input, rest, -, htakes⟩ := PaiPeer.takes_of_takeIntersection hfailed hpeer
  have hpeer : peer.control = (s.peer q).control ∧ ∃ new : List ReadAuthorisation,
      peer.paiInbox = (s.peer q).paiInbox ++ new.map .submitAuthorisation := by
    cases htakes with
    | interests _ _ => exact ⟨rfl, _, rfl⟩
    | areaOfInterest _ => exact ⟨rfl, [], by simp⟩
    | unknown _ => exact ⟨rfl, [], by simp [PaiPeer.fail]⟩
    | again _ _ => exact ⟨rfl, [], by simp⟩
    | first _ _ => exact ⟨rfl, [], by simp⟩
    | unsigned _ _ => exact ⟨rfl, [], by simp [PaiPeer.fail]⟩
  obtain ⟨hcontrol, new, hinbox⟩ := hpeer
  refine ⟨rfl, rfl, Role.forall_of q (by simpa using hcontrol) (by simp [q.other_ne]), ?_⟩
  refine Role.forall_of q ⟨new.map .submitAuthorisation, ?_, ?_, by simpa using hinbox⟩
    ⟨[], rfl, rfl, by simp [q.other_ne]⟩
  · rw [List.filterMap_map]
    exact List.filterMap_eq_nil_iff.mpr fun _ _ => rfl
  · rw [List.filterMap_map]
    exact List.filterMap_eq_nil_iff.mpr fun _ _ => rfl

/-- A request or a reply goes from the control channel into the inbox. -/
theorem Accounted.deliverControl (h : s.Accounted p)
    (hstep : step s (.deliverControl q) = some s') : s'.Accounted p := by
  obtain ⟨message, hfailed, hmessage, rfl⟩ := step_deliverControl hstep
  obtain ⟨hcontrol, inputs, hinputs, hinbox⟩ := paiInbox_onControlMessage (s.peer q) q message
  obtain ⟨hlt, hget⟩ := List.getElem?_eq_some_iff.mp hmessage
  set s' : PaiSession := { s with
    peer := Function.update s.peer q ((s.peer q).onControlMessage q message)
    receivedControl := Function.update s.receivedControl q (s.receivedControl q + 1) } with hs'
  have hself : s'.peer q = (s.peer q).onControlMessage q message := Function.update_self _ _ _
  have hother : s'.peer q.other = s.peer q.other := Function.update_of_ne q.other_ne _ _
  have hunread : s.unread q.other = message :: s'.unread q.other := by
    rw [unread, unread, hother, Role.other_other, hs']
    simp only [Function.update_self]
    rw [List.drop_eq_getElem_cons hlt, hget]
  have hunread' : s'.unread q = s.unread q := by
    rw [unread, unread, hself, hcontrol, hs']
    simp only [Function.update_of_ne q.other_ne]
  refine h.of_kept ?_
  rcases Role.eq_or_eq_other q p with rfl | rfl
  · have hrequests : s'.openRequests p = s.openRequests p := by
      rw [openRequests, openRequests, hunread', hother]
    have hreplies : (s'.openReplies p).Subperm (s.openReplies p) := by
      rw [openReplies, openReplies, hunread, hself, hinbox]
      exact subperm_of_moved (replied_inputOf message) hinputs
    refine ⟨rfl, ?_, ?_, hreplies.subset, rfl⟩
    · rw [hself, hcontrol, hs']
      simpa only [Function.update_of_ne p.other_ne] using h.received
    · rw [openHandles, openHandles, hrequests]
      exact (List.Subperm.refl _).append (subperm_map _ hreplies)
  · have hrequests : (s'.openRequests q.other).Subperm (s.openRequests q.other) := by
      rw [openRequests, openRequests, hunread, Role.other_other, hself, hinbox]
      exact subperm_of_moved (requested_inputOf message) hinputs
    have hreplies : s'.openReplies q.other = s.openReplies q.other := by
      rw [openReplies, openReplies, Role.other_other, hunread', hother]
    refine ⟨rfl, ?_, ?_, ?_, rfl⟩
    · rw [hother, Role.other_other, hs']
      simpa only [Function.update_self] using Nat.succ_le_of_lt hlt
    · rw [openHandles, openHandles, hreplies]
      exact hrequests.append (List.Subperm.refl _)
    · rw [hreplies]
      exact List.Subset.refl _

end

/-! ### A finder returns from a call -/

/-- The finder has put out `new`, and the inbox is `inbox`. -/
structure Ran (s s' : PaiSession) (q : Role) (inbox : List PaiFinder.Input)
    (new : List PaiFinder.Output) : Prop where
  outputs : (s'.exchange.finder q).outputs = (s.exchange.finder q).outputs ++ new
  inbox : (s'.peer q).paiInbox = inbox
  sent : ∃ added, (s'.peer q).control = (s.peer q).control ++ added ∧
    (added.filterMap ControlMessage.requested).Sublist
      (new.filterMap PaiFinder.Output.requested) ∧
    (added.filterMap ControlMessage.replied).Sublist (new.filterMap PaiFinder.Output.replied)
  received : s'.receivedControl = s.receivedControl
  other : s'.peer q.other = s.peer q.other
  finder_other : s'.exchange.finder q.other = s.exchange.finder q.other
  failed_other : s'.exchange.failed q.other = s.exchange.failed q.other

/-- What an output sends is about the same handle. -/
theorem requested_controlMessage (peer : PaiPeer) (o : PaiFinder.Output) :
    (peer.controlMessage o).bind ControlMessage.requested = o.requested := by
  cases o with
  | sendMessage m => rfl
  | requestSubspaceCapability h => rfl
  | newIntersection i => rfl
  | signAndSendSubspaceCap h cap =>
      simp only [PaiPeer.controlMessage]
      split <;> rfl

theorem replied_controlMessage (peer : PaiPeer) (o : PaiFinder.Output) :
    (peer.controlMessage o).bind ControlMessage.replied = o.replied ∨
      (peer.controlMessage o).bind ControlMessage.replied = none := by
  cases o with
  | sendMessage m => exact .inr rfl
  | requestSubspaceCapability h => exact .inr rfl
  | newIntersection i => exact .inr rfl
  | signAndSendSubspaceCap h cap =>
      simp only [PaiPeer.controlMessage]
      split
      · rename_i message hsign
        obtain ⟨-, -, -, rfl, rfl⟩ := Capabilities.signSubspaceCapability_ok hsign
        exact .inl rfl
      · exact .inr rfl

omit [PaiScheme] in
theorem filterMap_sublist {α β : Type} {f g : α → Option β} (h : ∀ a, f a = g a ∨ f a = none)
    (l : List α) : (l.filterMap f).Sublist (l.filterMap g) := by
  induction l with
  | nil => exact List.Sublist.refl _
  | cons a l ih =>
      rw [List.filterMap_cons, List.filterMap_cons]
      rcases h a with ha | ha
      · rw [ha]
        cases g a with
        | none => exact ih
        | some b => exact ih.cons_cons b
      · rw [ha]
        cases g a with
        | none => exact ih
        | some b => exact ih.cons b

theorem ran_of_afterPai {a : PaiExchange.Action} {new : List PaiFinder.Output}
    {inbox : List PaiFinder.Input} (hex : s.exchange.step a = some s'.exchange)
    (hq : a.peer = q) (hfailed : (s.peer q).failed = none)
    (hs' : s' = { s with
      exchange := s'.exchange
      peer := Function.update s.peer q
        (s.afterPai q s'.exchange { s.peer q with paiInbox := inbox }) })
    (hnew : (s'.exchange.finder q).outputs = (s.exchange.finder q).outputs ++ new) :
    Ran s s' q inbox new := by
  obtain ⟨done, hpre, hdone, -⟩ :=
    @afterPai_spec _ _ _ _ { s.peer q with paiInbox := inbox } _ hfailed hnew
  have hpeer : s'.peer q = s.afterPai q s'.exchange { s.peer q with paiInbox := inbox } := by
    rw [hs']
    exact Function.update_self _ _ _
  rw [← hpeer] at hdone
  obtain ⟨hfinder, hfail⟩ := PaiExchange.finder_other_of_step hex
  rw [hq] at hfinder hfail
  refine ⟨hnew, hdone.paiInbox, ⟨_, hdone.control, ?_, ?_⟩, by rw [hs'], ?_, hfinder, hfail⟩
  · rw [List.filterMap_filterMap]
    simp only [requested_controlMessage]
    exact (hpre.sublist).filterMap _
  · rw [List.filterMap_filterMap]
    exact (filterMap_sublist (replied_controlMessage _) done).trans (hpre.sublist.filterMap _)
  · rw [hs']
    exact Function.update_of_ne q.other_ne _ _

variable {inbox : List PaiFinder.Input} {new : List PaiFinder.Output}

/-- What the session has sent is added to what was not taken. -/
theorem Ran.unread_self (hran : Ran s s' q inbox new) (h : s.Accounted q) :
    ∃ added, s'.unread q = s.unread q ++ added ∧
      (added.filterMap ControlMessage.requested).Sublist
        (new.filterMap PaiFinder.Output.requested) ∧
      (added.filterMap ControlMessage.replied).Sublist
        (new.filterMap PaiFinder.Output.replied) := by
  obtain ⟨added, hsent, hreq, hrep⟩ := hran.sent
  refine ⟨added, ?_, hreq, hrep⟩
  rw [unread, unread, hran.received, hsent, List.drop_append_of_le_length h.received]

theorem Ran.unread_other (hran : Ran s s' q inbox new) : s'.unread q.other = s.unread q.other := by
  rw [unread, unread, hran.other, hran.received]

/-- The requests and replies on their way for the session that has run. -/
theorem Ran.handles_self (hran : Ran s s' q inbox new) (h : s.Accounted q) :
    (s'.openHandles q).Subperm (new.filterMap PaiFinder.Output.requested ++ (s.openRequests q ++
      ((s.unread q.other).filterMap ControlMessage.replied ++
        inbox.filterMap PaiFinder.Input.replied).map Prod.fst)) := by
  obtain ⟨added, hunread, hreq, -⟩ := hran.unread_self h
  rw [openHandles, openRequests, openReplies, hunread, hran.unread_other, hran.inbox, hran.other,
    ← List.append_assoc]
  refine List.Subperm.append ?_ (List.Subperm.refl _)
  rw [List.filterMap_append, openRequests, List.append_assoc]
  refine List.Subperm.trans (List.Perm.subperm ?_) (hreq.subperm.append (List.Subperm.refl _))
  rw [← List.append_assoc, ← List.append_assoc]
  exact List.perm_append_comm.append_right _

theorem Ran.replies_self (hran : Ran s s' q inbox new) :
    s'.openReplies q = (s.unread q.other).filterMap ControlMessage.replied ++
      inbox.filterMap PaiFinder.Input.replied := by
  rw [openReplies, hran.unread_other, hran.inbox]

/-- The replies on their way to the other session. -/
theorem Ran.replies_other (hran : Ran s s' q inbox new) (h : s.Accounted q) :
    (s'.openReplies q.other).Subperm
      (new.filterMap PaiFinder.Output.replied ++ s.openReplies q.other) := by
  obtain ⟨added, hunread, -, hrep⟩ := hran.unread_self h
  rw [openReplies, openReplies, Role.other_other, hunread, hran.other, List.filterMap_append,
    List.append_assoc]
  refine List.Subperm.trans (List.Perm.subperm ?_) (hrep.subperm.append (List.Subperm.refl _))
  rw [← List.append_assoc, ← List.append_assoc]
  exact List.perm_append_comm.append_right _

/-- The requests and replies on their way for the other session. -/
theorem Ran.handles_other (hran : Ran s s' q inbox new) (h : s.Accounted q) :
    (s'.openHandles q.other).Subperm (((s.unread q.other).filterMap ControlMessage.requested ++
      inbox.filterMap PaiFinder.Input.requested) ++
      (new.filterMap PaiFinder.Output.replied ++ s.openReplies q.other).map Prod.fst) := by
  have hrequests : s'.openRequests q.other =
      (s.unread q.other).filterMap ControlMessage.requested ++
        inbox.filterMap PaiFinder.Input.requested := by
    rw [openRequests, hran.unread_other, Role.other_other, hran.inbox]
  rw [openHandles, hrequests]
  exact (List.Subperm.refl _).append (subperm_map _ (hran.replies_other h))

theorem Ran.received_self (hran : Ran s s' q inbox new) (h : s.Accounted q) :
    s'.receivedControl q.other ≤ (s'.peer q).control.length := by
  obtain ⟨added, hsent, -, -⟩ := hran.sent
  rw [hran.received, hsent, List.length_append]
  exact h.received.trans (Nat.le_add_right _ _)

theorem Ran.received_other (hran : Ran s s' q inbox new) (h : s.Accounted q.other) :
    s'.receivedControl q.other.other ≤ (s'.peer q.other).control.length := by
  rw [hran.received, hran.other]
  exact h.received

/-- The other session, when nothing is on its way that was not before. -/
theorem Ran.kept_other (hran : Ran s s' q inbox new) (hself : s.Accounted q)
    (h : s.Accounted q.other) (hinbox : inbox.Sublist (s.peer q).paiInbox)
    (hrep : new.filterMap PaiFinder.Output.replied = []) : s'.Accounted q.other := by
  have hreplies := hran.replies_other hself
  have hhandles := hran.handles_other hself
  rw [hrep, List.nil_append] at hreplies hhandles
  refine h.of_kept ⟨hran.finder_other, hran.received_other h, ?_, hreplies.subset,
    hran.failed_other⟩
  refine hhandles.trans (List.Subperm.append ?_ (List.Subperm.refl _))
  rw [openRequests, Role.other_other]
  exact (List.Subperm.refl _).append (hinbox.filterMap _).subperm

/-- Which handles ask does not change when there are more fragments. -/
theorem Accounted.named_append (h : s.Accounted q) (hinv : s.exchange.Inv)
    {fragments more : List LocalFragment} {acted : List (Nat × Nat)}
    (hfragments : fragments = (s.exchange.finder q).fragments ++ more)
    (hacted : acted = (s.exchange.finder q).acted) :
    requestedHandles s q = (acted.filter fun m => requests fragments m.1).map Prod.fst := by
  rw [h.named, hfragments, hacted]
  congr 1
  refine List.filter_congr fun m hm => ?_
  have hlt := ((hinv.acted q m.1 m.2).mp hm).1.trans_le (hinv.knows q).replies_le
  unfold PaiFinder.requests
  rw [List.getElem?_append_left hlt]

/-- The session itself, when its finder asks nothing and forgets nothing. -/
theorem Ran.accounted_self (hran : Ran s s' q inbox new) (h : s.Accounted q) (hinv : s.exchange.Inv)
    (hinbox : inbox.Sublist (s.peer q).paiInbox)
    (hnew : new.filterMap PaiFinder.Output.requested = []) (more : List LocalFragment)
    (hfragments : (s'.exchange.finder q).fragments = (s.exchange.finder q).fragments ++ more)
    (hacted : (s'.exchange.finder q).acted = (s.exchange.finder q).acted)
    (hrequested : (s'.exchange.finder q).requestedSubspaceCapHandles =
      (s.exchange.finder q).requestedSubspaceCapHandles)
    (hfailed : s'.exchange.failed q ≠ some .subspaceCapRequestForInvalidHandle ∧
      s'.exchange.failed q ≠ some .subspaceCapRequestForWrongNamespace) : s'.Accounted q := by
  have hreplies : (s'.openReplies q).Subperm (s.openReplies q) := by
    rw [hran.replies_self, openReplies]
    exact (List.Subperm.refl _).append (hinbox.filterMap _).subperm
  have hhandles : (s'.openHandles q).Subperm (s.openHandles q) := by
    have hself := hran.handles_self h
    rw [hnew, List.nil_append, ← hran.replies_self] at hself
    exact hself.trans ((List.Subperm.refl _).append (subperm_map _ hreplies))
  refine ⟨hran.received_self h, nodup_of_subperm hhandles h.nodup, fun k hk => ?_, fun r hr => ?_,
    ?_, hfailed⟩
  · rw [hrequested]
    exact h.requested k (hhandles.subset hk)
  · obtain ⟨x, hx, hns⟩ := h.replies r (hreplies.subset hr)
    exact ⟨x, getElem?_of_isPrefix (hfragments ▸ List.prefix_append _ _) hx, hns⟩
  · rw [requestedHandles, hran.outputs, List.filterMap_append, hnew, List.append_nil]
    exact h.named_append hinv hfragments hacted

omit [PaiScheme] in
/-- At most one element is taken when at most one can be. -/
theorem length_filterMap_le_one {α β : Type} {f : α → Option β} {l : List α} (hl : l.Nodup)
    (h : ∀ a ∈ l, ∀ b ∈ l, f a ≠ none → f b ≠ none → a = b) : (l.filterMap f).length ≤ 1 := by
  induction l with
  | nil => simp
  | cons a l ih =>
      rw [List.nodup_cons] at hl
      have hrest := ih hl.2 fun b hb c hc =>
        h b (List.mem_cons_of_mem _ hb) c (List.mem_cons_of_mem _ hc)
      cases hfa : f a with
      | none => simpa [hfa] using hrest
      | some b =>
          have hnil : l.filterMap f = [] := by
            rw [List.filterMap_eq_nil_iff]
            intro c hc
            by_contra hfc
            have heq := h a List.mem_cons_self c (List.mem_cons_of_mem _ hc) (by simp [hfa]) hfc
            exact hl.1 (heq ▸ hc)
          simp [hfa, hnil]

/-! ### The inputs of a finder -/

section

variable [Meadowcap] [ChallengeHash] [WillowDataModel]

omit [Meadowcap] [ChallengeHash] [WillowDataModel] in
theorem failed_of_step_input {e e' : PaiExchange} {order : List Nat}
    {drained : List ReadAuthorisation} {input : PaiFinder.Input}
    (hstep : e.step (.input q order drained input) = some e') :
    e'.failed q = match ((e.finder q).onInput order drained input).1 with
      | .ok () => none
      | .error f => some f := by
  obtain ⟨-, -, -, -, rfl⟩ := PaiExchange.step_input hstep
  simp only [PaiExchange.update]
  cases ((e.finder q).onInput order drained input).1 with
  | ok _ => exact Function.update_self _ _ _
  | error f => exact Function.update_self _ _ _

omit [Meadowcap] [ChallengeHash] [WillowDataModel] in
/-- **A request is answered** once at most. -/
theorem Ran.accounted_answer (hran : Ran s s' q inbox new) (hself : s.Accounted q)
    (h : s.Accounted q.other) {t : Nat}
    (hinbox : (s.peer q).paiInbox = .receivedSubspaceCapRequest t :: inbox) {y : LocalFragment}
    (hy : (s.exchange.finder q.other).fragments[t]? = some y)
    {caps : List SubspaceCapability} (hcaps : caps.length ≤ 1)
    (hns : ∀ cap ∈ caps, cap.grantedNamespace = y.info.namespaceId)
    (hnew : new = caps.map (.signAndSendSubspaceCap t)) : s'.Accounted q.other := by
  have hnewReplies : new.filterMap PaiFinder.Output.replied =
      caps.map fun cap => (t, cap.grantedNamespace) := by
    rw [hnew, List.filterMap_map]
    exact congrFun List.filterMap_eq_map caps
  have hreplies := hran.replies_other hself
  have hhandles := hran.handles_other hself
  rw [hnewReplies] at hreplies hhandles
  have hone : (caps.map fun _ => t).Subperm [t] := by
    match caps, hcaps with
    | [], _ => exact List.nil_subperm
    | [_], _ => exact List.Subperm.refl _
  have hopen : s.openRequests q.other =
      (s.unread q.other).filterMap ControlMessage.requested ++
        t :: inbox.filterMap PaiFinder.Input.requested := by
    rw [openRequests, Role.other_other, hinbox]
    rfl
  have hle : (s'.openHandles q.other).Subperm (s.openHandles q.other) := by
    refine hhandles.trans ?_
    rw [openHandles, hopen, List.map_append, List.map_map, ← List.append_assoc]
    refine List.Subperm.append ?_ (List.Subperm.refl _)
    rw [List.append_assoc]
    refine (List.Subperm.refl _).append ?_
    refine ((List.Subperm.refl _).append hone).trans (List.Perm.subperm ?_)
    exact List.perm_append_singleton _ _
  refine ⟨hran.received_other h, nodup_of_subperm hle h.nodup, fun k hk => ?_, fun r hr => ?_, ?_,
    ?_⟩
  · rw [hran.finder_other]
    exact h.requested k (hle.subset hk)
  · rw [hran.finder_other]
    rcases List.mem_append.mp (hreplies.subset hr) with hr | hr
    · obtain ⟨cap, hcap, rfl⟩ := List.mem_map.mp hr
      exact ⟨y, hy, (hns cap hcap).symm⟩
    · exact h.replies r hr
  · rw [requestedHandles, hran.finder_other]
    exact h.named
  · rw [hran.failed_other]
    exact h.notRefused

omit [Meadowcap] [ChallengeHash] [WillowDataModel] in
/-- **A reply is accepted**: its handle is remembered, and forgotten now. -/
theorem Ran.accounted_reply (hran : Ran s s' q inbox new) (h : s.Accounted q) {o : Nat}
    {ns : NamespaceId}
    (hinbox : (s.peer q).paiInbox = .receivedVerifiedSubspaceCapReply o ns :: inbox)
    (hnew : new.filterMap PaiFinder.Output.requested = [])
    (hfragments : (s'.exchange.finder q).fragments = (s.exchange.finder q).fragments)
    (hacted : (s'.exchange.finder q).acted = (s.exchange.finder q).acted)
    (hrequested : (s'.exchange.finder q).requestedSubspaceCapHandles =
      (s.exchange.finder q).requestedSubspaceCapHandles.erase o)
    (hfailed : s'.exchange.failed q = none) : s'.Accounted q := by
  have hopen : s.openReplies q = (s.unread q.other).filterMap ControlMessage.replied ++
      (o, ns) :: inbox.filterMap PaiFinder.Input.replied := by
    rw [openReplies, hinbox]
    rfl
  have hle : (o :: s'.openHandles q).Subperm (s.openHandles q) := by
    have hself := hran.handles_self h
    rw [hnew, List.nil_append] at hself
    refine ((List.Subperm.refl [o]).append hself).trans (List.Perm.subperm ?_)
    simp only [openHandles, hopen, List.map_append, List.map_cons]
    rw [List.singleton_append]
    exact List.perm_middle.symm.trans (List.perm_middle.symm.append_left _)
  have hnodup := nodup_of_subperm hle h.nodup
  rw [List.nodup_cons] at hnodup
  have hreplies : s'.openReplies q ⊆ s.openReplies q := by
    rw [hran.replies_self, hopen]
    intro r hr
    rcases List.mem_append.mp hr with hr | hr
    · exact List.mem_append_left _ hr
    · exact List.mem_append_right _ (List.mem_cons_of_mem _ hr)
  refine ⟨hran.received_self h, hnodup.2, fun k hk => ?_, fun r hr => ?_, ?_, by simp [hfailed]⟩
  · rw [hrequested, Finset.mem_erase]
    refine ⟨?_, h.requested k (hle.subset (List.mem_cons_of_mem _ hk))⟩
    rintro rfl
    exact hnodup.1 hk
  · rw [hfragments]
    exact h.replies r (hreplies hr)
  · rw [requestedHandles, hran.outputs, List.filterMap_append, hnew, List.append_nil, hacted,
      hfragments]
    exact h.named

omit [PaiScheme] [Meadowcap] [ChallengeHash] [WillowDataModel] in
theorem answerTo_eq_some {own : List LocalFragment} {n o : Nat} {y : LocalFragment}
    {cap : SubspaceCapability} (h : PaiFinder.answerTo own n y o = some cap) :
    o < n ∧ ∃ x, own[o]? = some x ∧ x.fragment = y.fragment ∧
      x.authorisation.subspaceCap = some cap := by
  unfold PaiFinder.answerTo at h
  split at h
  · cases h
  · rename_i x hx
    split at h
    · rename_i hcond
      exact ⟨hcond.1, x, hx, hcond.2, h⟩
    · cases h

/-- The finder has taken an input of its session. -/
theorem accounted_takePai (hlaw : PaiScheme.Lawful) (hinv : s.exchange.Inv)
    (h : ∀ p, s.Accounted p) {order : List Nat} {drained : List ReadAuthorisation}
    (hallowed : NamesOwnHandle s (.takePai q order drained))
    (hstep : step s (.takePai q order drained) = some s') : ∀ p, s'.Accounted p := by
  obtain ⟨input, rest, hfailed, hinbox, hex, hs'⟩ := step_takePai hstep
  have hreacts := (hinv.input hlaw hex).1
  have hfailedq := failed_of_step_input hex
  have hcovers := (PaiExchange.step_input hex).2.1
  have hran : ∀ new, (s'.exchange.finder q).outputs = (s.exchange.finder q).outputs ++ new →
      Ran s s' q rest new := fun new => ran_of_afterPai hex rfl hfailed hs'
  have hsub : rest.Sublist (s.peer q).paiInbox := by
    rw [hinbox]
    exact List.sublist_cons_self _ _
  generalize hf : s'.exchange.finder q = f' at hreacts
  generalize ((s.exchange.finder q).onInput order drained input).1 = res at hreacts hfailedq
  -- inputs that neither ask nor answer
  have hquiet : ∀ new more, f'.outputs = (s.exchange.finder q).outputs ++ new →
      new.filterMap PaiFinder.Output.requested = [] →
      new.filterMap PaiFinder.Output.replied = [] →
      f'.fragments = (s.exchange.finder q).fragments ++ more →
      f'.acted = (s.exchange.finder q).acted →
      f'.requestedSubspaceCapHandles = (s.exchange.finder q).requestedSubspaceCapHandles →
      (∀ e, res = .error e → ∃ t, e = .missingResource t) → ∀ p, s'.Accounted p := by
    intro new more houtputs hreq hrep hfragments hacted hrequested hres
    have hnew := hran new (hf ▸ houtputs)
    have hok : s'.exchange.failed q ≠ some .subspaceCapRequestForInvalidHandle ∧
        s'.exchange.failed q ≠ some .subspaceCapRequestForWrongNamespace := by
      rw [hfailedq]
      cases res with
      | ok _ => simp
      | error e =>
          obtain ⟨t, rfl⟩ := hres e rfl
          simp
    refine Role.forall_of q ?_ (hnew.kept_other (h q) (h q.other) hsub hrep)
    exact hnew.accounted_self (h q) hinv hsub hreq more (hf ▸ hfragments) (hf ▸ hacted)
      (hf ▸ hrequested) hok
  have hsent : ∀ new : List LocalFragment,
      (new.map fun x => PaiFinder.Output.sendMessage
        (PaiFinder.bindMessage (s.exchange.finder q).scalar x)).filterMap
          PaiFinder.Output.requested = [] ∧
      (new.map fun x => PaiFinder.Output.sendMessage
        (PaiFinder.bindMessage (s.exchange.finder q).scalar x)).filterMap
          PaiFinder.Output.replied = [] := by
    intro new
    rw [List.filterMap_map, List.filterMap_map]
    exact ⟨List.filterMap_eq_nil_iff.mpr fun _ _ => rfl,
      List.filterMap_eq_nil_iff.mpr fun _ _ => rfl⟩
  cases hreacts with
  | queued _ => exact hquiet [] [] (by simp) rfl rfl (by simp) rfl rfl (by simp)
  | submitted _ hnew _ _ =>
      exact hquiet _ _ hnew.outputs (hsent _).1 (hsent _).2 hnew.fragments hnew.acted
        hnew.requested (by simp)
  | established _ hnew _ _ =>
      exact hquiet _ _ hnew.outputs (hsent _).1 (hsent _).2 hnew.fragments hnew.acted
        hnew.requested (by simp)
  | establishedAgain _ => exact hquiet [] [] (by simp) rfl rfl (by simp) rfl rfl (by simp)
  | requestMissing _ => exact hquiet [] [] (by simp) rfl rfl (by simp) rfl rfl (by simp)
  | readCapMissing _ => exact hquiet [] [] (by simp) rfl rfl (by simp) rfl rfl (by simp)
  | readCap _ =>
      refine hquiet _ [] rfl ?_ ?_ (by simp [PaiFinder.outAll]) rfl rfl (by simp)
      · rw [List.filterMap_map]
        exact List.filterMap_eq_nil_iff.mpr fun _ _ => rfl
      · rw [List.filterMap_map]
        exact List.filterMap_eq_nil_iff.mpr fun _ _ => rfl
  | @request t y hy =>
      have hnew := hran _ (congrArg PaiFinder.outputs hf)
      have hno : ((order.filterMap (PaiFinder.answerTo (s.exchange.finder q).fragments
          (s.exchange.replied q) y)).map (PaiFinder.Output.signAndSendSubspaceCap t)).filterMap
            PaiFinder.Output.requested = [] := by
        rw [List.filterMap_map]
        exact List.filterMap_eq_nil_iff.mpr fun _ _ => rfl
      simp only [NamesOwnHandle, hinbox] at hallowed
      refine Role.forall_of q ?_ ?_
      · exact hnew.accounted_self (h q) hinv hsub hno [] (by rw [hf]; simp [PaiFinder.outAll])
          (by rw [hf]; rfl) (by rw [hf]; rfl) (by rw [hfailedq]; simp)
      · refine hnew.accounted_answer (h q) (h q.other) hinbox
          (getElem?_of_isPrefix (PaiExchange.known_isPrefix _ _) hy) ?_ ?_ rfl
        · refine length_filterMap_le_one hcovers.1 fun o _ o' _ ho ho' => ?_
          obtain ⟨cap, hcap⟩ := Option.ne_none_iff_exists'.mp ho
          obtain ⟨cap', hcap'⟩ := Option.ne_none_iff_exists'.mp ho'
          obtain ⟨hlt, x, hx, hfrag, hx'⟩ := answerTo_eq_some hcap
          obtain ⟨hlt', x', hx₁, hfrag', hx₂⟩ := answerTo_eq_some hcap'
          exact (hallowed y hy o hlt o' hlt' x hx x' hx₁ hfrag hfrag' cap hx' cap' hx₂).1
        · intro cap hcap
          obtain ⟨o, -, ho⟩ := List.mem_filterMap.mp hcap
          obtain ⟨hlt, x, hx, hfrag, hx'⟩ := answerTo_eq_some ho
          exact (hallowed y hy o hlt o hlt x hx x hx hfrag hfrag cap hx' cap hx').2
  | @reply o ns x hx hrequested hns =>
      have hnew := hran _ (congrArg PaiFinder.outputs hf)
      refine Role.forall_of q ?_ (hnew.kept_other (h q) (h q.other) hsub rfl)
      exact hnew.accounted_reply (h q) hinbox rfl (by rw [hf]; rfl) (by rw [hf]; rfl)
        (by rw [hf]; rfl) hfailedq
  | @replyWrongNamespace o ns x hx hrequested hns =>
      have hmem : (o, ns) ∈ s.openReplies q := by
        rw [openReplies, hinbox]
        exact List.mem_append_right _ List.mem_cons_self
      obtain ⟨x', hx', hns'⟩ := (h q).replies _ hmem
      rw [hx] at hx'
      obtain rfl := Option.some.inj hx'
      exact absurd hns' hns
  | @replyInvalid o ns hrequested =>
      have hmem : o ∈ s.openHandles q := by
        rw [openHandles, openReplies, hinbox]
        exact List.mem_append_right _ (List.mem_map.mpr
          ⟨(o, ns), List.mem_append_right _ List.mem_cons_self, rfl⟩)
      exact absurd ((h q).requested o hmem) hrequested

/-! ### Matches -/

omit [PaiScheme] [Meadowcap] [ChallengeHash] [WillowDataModel] in
theorem requests_iff {own : List LocalFragment} {o : Nat} {x : LocalFragment}
    (hx : own[o]? = some x) : requests own o = true ↔ x.Requests := by
  constructor
  · exact PaiExchange.isMostSpecific_of_requests hx
  · rintro ⟨hkind, hspecific⟩
    simp [requests, hx, PaiExchange.onIntersection_info, hkind, hspecific, OnIntersection.new]

omit [Meadowcap] [ChallengeHash] [WillowDataModel] in
/-- A match that asks puts out a request. -/
theorem requested_reaction (own : List LocalFragment) (handle : Nat) (ms : List (Nat × Nat)) :
    (ms.filterMap (reaction own handle)).filterMap PaiFinder.Output.requested =
      (ms.filter fun m => requests own m.1).map fun _ => handle := by
  have hone : ∀ m, (reaction own handle m).bind PaiFinder.Output.requested =
      if requests own m.1 then some handle else none := by
    intro m
    unfold PaiFinder.reaction PaiFinder.requests
    cases own[m.1]? with
    | none => rfl
    | some x => cases hon : x.info.onIntersection <;> simp [hon, PaiFinder.Output.requested]
  rw [List.filterMap_filterMap]
  simp only [hone]
  induction ms with
  | nil => rfl
  | cons m ms ih =>
      cases hreq : requests own m.1 with
      | true => simpa [List.filterMap_cons, hreq] using ih
      | false => simpa [List.filterMap_cons, hreq] using ih

omit [Meadowcap] [ChallengeHash] [WillowDataModel] in
theorem replied_reaction (own : List LocalFragment) (handle : Nat) (ms : List (Nat × Nat)) :
    (ms.filterMap (reaction own handle)).filterMap PaiFinder.Output.replied = [] := by
  rw [List.filterMap_filterMap]
  refine List.filterMap_eq_nil_iff.mpr fun m _ => ?_
  unfold PaiFinder.reaction
  split
  · rfl
  · split <;> rfl

omit [Meadowcap] [ChallengeHash] [WillowDataModel] in
/-- Under the condition one match at most asks, and it asks for the handle at hand,
which was not asked for. -/
theorem delivery_requests (hinv : s.exchange.Inv) {order : List Nat}
    (hallowed : NamesOwnHandle s (.deliverIntersection q order)) {message : IntersectionMessage}
    {handle : Nat} {sent : List PaiFinder.Output} {ms : List (Nat × Nat)}
    (hd : PaiExchange.Delivery s.exchange s'.exchange q message handle sent ms) :
    (ms.filter fun m => requests (s.exchange.finder q).fragments m.1) = [] ∨
      handle ∉ (s.exchange.finder q).requestedSubspaceCapHandles ∧
        ∃ t, (ms.filter fun m => requests (s.exchange.finder q).fragments m.1) = [(handle, t)] := by
  -- what asks has the handle, and there is one peer fragment for it
  have hunique : (∀ m ∈ ms, requests (s.exchange.finder q).fragments m.1 = true →
      m.1 = handle ∧ handle ∉ (s.exchange.finder q).requestedSubspaceCapHandles) ∧
      ∀ m ∈ ms, ∀ m' ∈ ms, requests (s.exchange.finder q).fragments m.1 = true →
        m.1 = handle → m'.1 = handle → m.2 = m'.2 := by
    have hnext := hd.next
    simp only [NamesOwnHandle, hnext] at hallowed
    cases hd.progress with
    | @bind y hknown hreplied hhandle =>
        have hnew : ∀ m ∈ ms, m.2 = handle ∧ ∃ x, m.1 < s.exchange.replied q ∧
            (s.exchange.finder q).fragments[m.1]? = some x ∧ x.Meets y := by
          intro m hm
          obtain ⟨⟨hlt, x, y', hx, hy', hmeets⟩, hold⟩ := (hd.mem m.1 m.2).mp hm
          rw [hknown] at hy'
          rw [hreplied] at hlt
          rcases lt_trichotomy m.2 (s.exchange.known q).length with hm2 | hm2 | hm2
          · rw [List.getElem?_append_left hm2] at hy'
            exact absurd ⟨hlt, x, y', hx, hy', hmeets⟩ hold
          · rw [hm2, List.getElem?_concat_length] at hy'
            obtain rfl := Option.some.inj hy'
            exact ⟨hm2.trans hhandle.symm, x, hlt, hx, hmeets⟩
          · rw [List.getElem?_eq_none_iff.mpr (by simp; omega)] at hy'
            cases hy'
        have hyget : (s.exchange.finder q.other).fragments[(s.exchange.known q).length]? =
            some y := by
          have hpre := PaiExchange.known_isPrefix s'.exchange q
          rw [hknown, hd.other] at hpre
          exact getElem?_of_isPrefix hpre List.getElem?_concat_length
        refine ⟨fun m hm hreq => ?_, fun m hm m' hm' _ _ _ => ?_⟩
        · obtain ⟨-, x, hlt, hx, hmeets⟩ := hnew m hm
          obtain ⟨ho, hnot⟩ := hallowed y hyget m.1 hlt x hx ((requests_iff hx).mp hreq) hmeets
          refine ⟨ho.trans hhandle.symm, ?_⟩
          rwa [hhandle, ← ho]
        · exact (hnew m hm).1.trans (hnew m' hm').1.symm
    | @reply x hx hknown hreplied hhandle =>
        have hnew : ∀ m ∈ ms, m.1 = handle ∧ ∃ y, m.2 < (s.exchange.known q).length ∧
            (s.exchange.known q)[m.2]? = some y ∧ x.Meets y := by
          intro m hm
          obtain ⟨⟨hlt, x', y, hx', hy, hmeets⟩, hold⟩ := (hd.mem m.1 m.2).mp hm
          rw [hknown] at hy
          rw [hreplied] at hlt
          have hm1 : m.1 = s.exchange.replied q := by
            by_contra hne
            exact hold ⟨by omega, x', y, hx', hy, hmeets⟩
          rw [hm1, hx] at hx'
          obtain rfl := Option.some.inj hx'
          exact ⟨hm1.trans hhandle.symm, y, (List.getElem?_eq_some_iff.mp hy).1, hy, hmeets⟩
        refine ⟨fun m hm hreq => ⟨(hnew m hm).1, fun hmem => ?_⟩, fun m hm m' hm' hreq hm1 _ => ?_⟩
        · -- what was asked for was replied to before
          obtain ⟨-, t, hacted⟩ := hinv.requested q handle hmem
          have hlt := ((hinv.acted q handle t).mp hacted).1
          omega
        · obtain ⟨-, y, hlt, hy, hmeets⟩ := hnew m hm
          obtain ⟨-, y', hlt', hy', hmeets'⟩ := hnew m' hm'
          have hxh : (s.exchange.finder q).fragments[handle]? = some x := hhandle ▸ hx
          rw [hm1] at hreq
          exact hallowed x hxh ((requests_iff hxh).mp hreq) m.2 hlt m'.2 hlt' y hy y' hy' hmeets
            hmeets'
  set l := ms.filter fun m => requests (s.exchange.finder q).fragments m.1 with hl
  have hmem : ∀ m ∈ l, m ∈ ms ∧ requests (s.exchange.finder q).fragments m.1 = true :=
    fun m hm => List.mem_filter.mp hm
  have hnodup : l.Nodup := hd.nodup.filter _
  match hl' : l with
  | [] => exact .inl rfl
  | m :: rest =>
      right
      obtain ⟨hm, hreq⟩ := hmem m List.mem_cons_self
      obtain ⟨hm1, hnot⟩ := hunique.1 m hm hreq
      refine ⟨hnot, m.2, ?_⟩
      have hrest : rest = [] := by
        by_contra hne
        obtain ⟨m', hm'⟩ := List.exists_mem_of_ne_nil _ hne
        obtain ⟨hmem', hreq'⟩ := hmem m' (List.mem_cons_of_mem _ hm')
        obtain ⟨hm1', -⟩ := hunique.1 m' hmem' hreq'
        have heq : m = m' := Prod.ext (hm1.trans hm1'.symm)
          (hunique.2 m hm m' hmem' hreq hm1 hm1')
        exact (List.nodup_cons.mp hnodup).1 (heq ▸ hm')
      rw [hrest, ← hm1]

/-- The finder has taken a message of the other finder. -/
theorem accounted_deliverIntersection (hlaw : PaiScheme.Lawful) (hinv : s.exchange.Inv)
    (h : ∀ p, s.Accounted p) {order : List Nat}
    (hallowed : NamesOwnHandle s (.deliverIntersection q order))
    (hstep : step s (.deliverIntersection q order) = some s') : ∀ p, s'.Accounted p := by
  obtain ⟨hfailed, hex, hs'⟩ := step_deliverIntersection hstep
  obtain ⟨⟨message, handle, sent, ms, hd⟩, -⟩ := hinv.deliver hlaw hex
  have hc := hd.checked
  have hran : Ran s s' q (s.peer q).paiInbox
      (sent ++ ms.filterMap (reaction (s.exchange.finder q).fragments handle)) := by
    refine ran_of_afterPai hex rfl hfailed ?_ (by rw [hc.outputs, List.append_assoc])
    exact hs'
  have hsent : sent.filterMap PaiFinder.Output.requested = [] ∧
      sent.filterMap PaiFinder.Output.replied = [] := by
    constructor
    · refine List.filterMap_eq_nil_iff.mpr fun o ho => ?_
      obtain ⟨m, rfl⟩ := hd.only_messages o ho
      rfl
    · refine List.filterMap_eq_nil_iff.mpr fun o ho => ?_
      obtain ⟨m, rfl⟩ := hd.only_messages o ho
      rfl
  set asked := ms.filter fun m => requests (s.exchange.finder q).fragments m.1 with hasked
  have hnew : (sent ++ ms.filterMap (reaction (s.exchange.finder q).fragments handle)).filterMap
      PaiFinder.Output.requested = asked.map fun _ => handle := by
    rw [List.filterMap_append, hsent.1, List.nil_append, requested_reaction]
  have hrep : (sent ++ ms.filterMap (reaction (s.exchange.finder q).fragments handle)).filterMap
      PaiFinder.Output.replied = [] := by
    rw [List.filterMap_append, hsent.2, List.nil_append, replied_reaction]
  -- the handles asked for are those remembered
  have hown : asked.map Prod.fst = asked.map fun _ => handle := by
    rcases delivery_requests hinv hallowed hd with hnil | ⟨-, t, hone⟩
    · rw [hasked, hnil]
      rfl
    · rw [hasked, hone]
      rfl
  have hrequested : (s'.exchange.finder q).requestedSubspaceCapHandles =
      (s.exchange.finder q).requestedSubspaceCapHandles ∪ (asked.map fun _ => handle).toFinset := by
    rw [hc.requested, ← hown, hasked, List.filter_map]
    rfl
  have hnodup : ((asked.map fun _ => handle) ++ s.openHandles q).Nodup := by
    rcases delivery_requests hinv hallowed hd with hnil | ⟨hnot, t, hone⟩
    · rw [hasked, hnil]
      exact (h q).nodup
    · rw [hasked, hone]
      exact List.nodup_cons.mpr ⟨fun hmem => hnot ((h q).requested _ hmem), (h q).nodup⟩
  refine Role.forall_of q ?_ (hran.kept_other (h q) (h q.other) (List.Sublist.refl _) hrep)
  have hle : (s'.openHandles q).Subperm ((asked.map fun _ => handle) ++ s.openHandles q) := by
    have hself := hran.handles_self (h q)
    rw [hnew] at hself
    exact hself
  have hreplies : s'.openReplies q = s.openReplies q := by
    rw [hran.replies_self, openReplies]
  refine ⟨hran.received_self (h q), nodup_of_subperm hle hnodup, fun k hk => ?_, fun r hr => ?_, ?_,
    ?_⟩
  · rw [hrequested, Finset.mem_union, List.mem_toFinset]
    rcases List.mem_append.mp (hle.subset hk) with hk | hk
    · exact .inr hk
    · exact .inl ((h q).requested k hk)
  · rw [hc.fragments]
    exact (h q).replies r (hreplies ▸ hr)
  · rw [requestedHandles, hran.outputs, List.filterMap_append, hnew, hc.acted, hc.fragments,
      List.filter_append, List.map_append, ← hasked, hown, ← (h q).named]
    rfl
  · rw [hd.failed]
    exact (h q).notRefused

/-- **One step** keeps the account. -/
theorem accounted_step (hlaw : PaiScheme.Lawful) (hinv : s.exchange.Inv) (h : ∀ p, s.Accounted p)
    {a : Action} (hallowed : NamesOwnHandle s a) (hstep : PaiSession.step s a = some s') :
    ∀ p, s'.Accounted p := by
  cases a with
  | addInterests q interests => exact fun p => (h p).of_inputs (onlyInputs_addInterests hstep)
  | deliverControl q => exact fun p => (h p).deliverControl hstep
  | deliverCapability q => exact fun p => (h p).of_inputs (onlyInputs_deliverCapability hstep)
  | takePai q order drained => exact accounted_takePai hlaw hinv h hallowed hstep
  | deliverIntersection q order =>
      exact accounted_deliverIntersection hlaw hinv h hallowed hstep
  | takeIntersection q => exact fun p => (h p).of_inputs (onlyInputs_takeIntersection hstep)

theorem accounted_of_reachable (hlaw : PaiScheme.Lawful) {scalar : Role → PsiScalar}
    {nonce : Role → AccessChallenge} {secrets : Role → SecretStorage}
    (hs : Transition.Reachable PaiSession.step NamesOwnHandle (start scalar nonce secrets) s) :
    s.exchange.Inv ∧ ∀ p, s.Accounted p := by
  refine hs.invariant (P := fun s => s.exchange.Inv ∧ ∀ p, s.Accounted p)
    ⟨PaiExchange.inv_start scalar, accounted_start scalar nonce secrets⟩ ?_
  rintro s a s' ⟨hinv, h⟩ hallowed hstep
  refine ⟨?_, accounted_step hlaw hinv h hallowed hstep⟩
  rcases exchange_of_step hstep with heq | ⟨a', -, hex⟩
  · rwa [heq]
  · exact hinv.step hlaw hex

/-- **Requests name the own handle**, and their replies are accepted, in every run whose
steps meet the condition. -/
theorem requests_name_own_handle (hlaw : PaiScheme.Lawful) (scalar : Role → PsiScalar)
    (nonce : Role → AccessChallenge) (secrets : Role → SecretStorage) (s : PaiSession)
    (hs : Transition.Reachable PaiSession.step NamesOwnHandle (start scalar nonce secrets) s)
    (p : Role) : RequestsOwn s p := by
  obtain ⟨hinv, hacc⟩ := accounted_of_reachable hlaw hs
  refine ⟨(hacc p).named, fun h hmem => ?_, fun h ns rest hinbox => ?_, (hacc p).notRefused⟩
  · rw [(hacc p).named, List.mem_map] at hmem
    obtain ⟨⟨o, t⟩, hm, rfl⟩ := hmem
    obtain ⟨hacted, hreq⟩ := List.mem_filter.mp hm
    obtain ⟨x, y, hx, hy, hmeets⟩ := hinv.meetAt_of_acted hacted
    exact ⟨x, t, hx, (requests_iff hx).mp hreq, x, y, hx, hy, hmeets⟩
  · have hreply : (h, ns) ∈ s.openReplies p := by
      rw [openReplies, hinbox]
      exact List.mem_append_right _ List.mem_cons_self
    refine ⟨(hacc p).requested h ?_, (hacc p).replies _ hreply⟩
    exact List.mem_append_right _ (List.mem_map.mpr ⟨_, hreply, rfl⟩)

end

end PaiSession

end Model

/-! ### A match found with a bind -/

namespace PaiSession

open IrohWillow.Sample PaiSession.Sample

attribute [local instance] countingScheme acceptingSignatures plainHash noAreas

/-- Alfie may read one subspace, Betty all of them, and she has the subspace
capability. -/
def Sample.oneSubspace : ReadAuthorisation := readAuthorisation (.id (.ofByte 5)) [] none

def Sample.allSubspaces : ReadAuthorisation :=
  readAuthorisation .any [] (some ⟨Sample.userId, Sample.namespaceId⟩)

/-- Betty has replied to the fragments of Alfie before she binds hers. -/
def Sample.bindComesLast : List Action :=
  submit .alfie [Sample.oneSubspace] ++ deliver .betty 2 ++
    [.addInterests .betty [(Sample.allSubspaces, [])], .takeIntersection .betty,
      .deliverControl .betty, .takePai .betty [0, 1] [],
      .takePai .betty [0, 1] [Sample.allSubspaces]] ++ deliver .alfie 3

/-- Betty binds her fragment first. -/
def Sample.bindComesFirst : List Action :=
  submit .alfie [Sample.oneSubspace] ++ submit .betty [Sample.allSubspaces] ++
    deliver .alfie 1 ++ deliver .betty 3 ++ deliver .alfie 2 ++
    [.deliverControl .betty, .takePai .betty [0, 1, 2] [], .deliverControl .alfie]

set_option maxRecDepth 4000 in
/-- Alfie's secondary fragment has the handle 1, and he asks about the handle 0, which
is that of Betty's fragment. -/
theorem bind_requests_peer_handle :
    ¬ ∀ s, Transition.Reachable step (fun _ _ => True) session s → ∀ p, RequestsOwn s p := by
  intro h
  have hrun : ((Transition.run step session Sample.bindComesLast).map fun s =>
      (requestedHandles s .alfie, ((s.exchange.finder .alfie).acted.filter fun m =>
        PaiFinder.requests (s.exchange.finder .alfie).fragments m.1).map Prod.fst)) =
      some ([0], [1]) := by rfl
  obtain ⟨s, hs, heq⟩ := Option.map_eq_some_iff.mp hrun
  obtain ⟨hrequested, hasked⟩ := Prod.mk.inj heq
  have hnamed := (h s (.of_run_all hs) .alfie).named
  rw [hrequested, hasked] at hnamed
  cases hnamed

instance (s : PaiSession) : (a : Action) → Decidable (NamesOwnHandle s a)
  | .deliverIntersection p _ =>
      match h : (s.exchange.sent p.other)[s.exchange.received p]? with
      | some (.bindFragment _ _) =>
          decidable_of_iff (∀ y ∈ (s.exchange.finder p.other).fragments[
              (s.exchange.known p).length]?,
            ∀ o < s.exchange.replied p, ∀ x ∈ (s.exchange.finder p).fragments[o]?,
              x.Requests → x.Meets y → o = (s.exchange.known p).length ∧
                o ∉ (s.exchange.finder p).requestedSubspaceCapHandles)
            (by simp only [NamesOwnHandle, h])
      | some (.replyFragment handle _) =>
          decidable_of_iff (∀ x ∈ (s.exchange.finder p).fragments[handle]?, x.Requests →
            ∀ t < (s.exchange.known p).length, ∀ t' < (s.exchange.known p).length,
              ∀ y ∈ (s.exchange.known p)[t]?, ∀ y' ∈ (s.exchange.known p)[t']?,
                x.Meets y → x.Meets y' → t = t')
            (by simp only [NamesOwnHandle, h])
      | none => isTrue (by simp only [NamesOwnHandle, h])
  | .takePai p _ _ =>
      match h : (s.peer p).paiInbox with
      | .receivedSubspaceCapRequest t :: _ =>
          decidable_of_iff (∀ y ∈ (s.exchange.known p)[t]?, ∀ o < s.exchange.replied p,
            ∀ o' < s.exchange.replied p, ∀ x ∈ (s.exchange.finder p).fragments[o]?,
              ∀ x' ∈ (s.exchange.finder p).fragments[o']?,
                x.fragment = y.fragment → x'.fragment = y.fragment →
                ∀ cap ∈ x.authorisation.subspaceCap, ∀ cap' ∈ x'.authorisation.subspaceCap,
                  o = o' ∧ cap.grantedNamespace = y.info.namespaceId)
            (by simp only [NamesOwnHandle, h])
      | [] => isTrue (by simp [NamesOwnHandle, h])
      | .established :: _ => isTrue (by simp [NamesOwnHandle, h])
      | .submitAuthorisation _ :: _ => isTrue (by simp [NamesOwnHandle, h])
      | .receivedMessage _ :: _ => isTrue (by simp [NamesOwnHandle, h])
      | .receivedReadCapForIntersection _ :: _ => isTrue (by simp [NamesOwnHandle, h])
      | .receivedVerifiedSubspaceCapReply _ _ :: _ => isTrue (by simp [NamesOwnHandle, h])
  | .addInterests _ _ => isTrue trivial
  | .deliverControl _ => isTrue trivial
  | .deliverCapability _ => isTrue trivial
  | .takeIntersection _ => isTrue trivial

set_option maxRecDepth 4000 in
/-- When Betty's bind comes first, Alfie asks about his own handle, and the reply that
he takes next is accepted. -/
theorem requests_name_own_handle_first :
    ∃ s, Transition.Reachable step NamesOwnHandle session s ∧
      requestedHandles s .alfie = [1] ∧ (s.peer .alfie).paiInbox.length = 1 ∧
      RequestsOwn s .alfie := by
  have hrun : ((Transition.run step session Sample.bindComesFirst).map fun s =>
      (requestedHandles s .alfie, (s.peer .alfie).paiInbox.length)) = some ([1], 1) := by rfl
  obtain ⟨s, hs, heq⟩ := Option.map_eq_some_iff.mp hrun
  obtain ⟨hrequested, hinbox⟩ := Prod.mk.inj heq
  have hreach : Transition.Reachable step NamesOwnHandle session s := .of_run hs (by decide)
  exact ⟨s, hreach, hrequested, hinbox,
    requests_name_own_handle countingScheme_lawful _ _ _ s hreach .alfie⟩

end PaiSession

end IrohWillow
