import IrohWillow.Lib.Transition
import IrohWillow.Session.Pair
import IrohWillow.Session.PaiKnowledge

/-!
# Two finders exchange their fragments

Two `PaiFinder`s and the intersection channel between them, in both directions.
A finder takes inputs of its own session and messages of the other finder in any
order (`pai_inbox_rx.merge(intersection_recv)` in `session/run.rs`); the inputs
of the session are arbitrary here. The messages sent are those among the outputs,
and they arrive in order.
-/

namespace IrohWillow

section Model

variable [PaiScheme]

/-- The messages among the outputs of a finder, in the order of the channel. -/
def PaiFinder.messages (outputs : List PaiFinder.Output) : List IntersectionMessage :=
  outputs.filterMap fun
    | .sendMessage message => some message
    | _ => none

/-- Two finders and how many messages of the other each has received. -/
structure PaiExchange where
  finder : Role → PaiFinder
  received : Role → Nat := fun _ => 0
  /-- The finder has returned an error. -/
  failed : Role → Option PaiFinder.Failure := fun _ => none

namespace PaiExchange

open PaiFinder (messages bindMessage replyMessage Matches Reacts Checked requests reaction)

/-- What may happen. Hash maps are iterated in the order `order`, the pending
authorisations are drained in the order `drained`. -/
inductive Action where
  /-- The finder takes an input of its session. -/
  | input (p : Role) (order : List Nat) (drained : List ReadAuthorisation)
      (input : PaiFinder.Input)
  /-- The finder takes the next message of the other one. -/
  | deliver (p : Role) (order : List Nat)

/-- The messages that the finder has sent. -/
def sent (s : PaiExchange) (p : Role) : List IntersectionMessage := messages (s.finder p).outputs

/-- The finder has returned from a call. -/
def update (s : PaiExchange) (p : Role) (res : Except PaiFinder.Failure Unit × PaiFinder) :
    PaiExchange :=
  { s with
    finder := Function.update s.finder p res.2
    failed := Function.update s.failed p (match res.1 with
      | .ok () => none
      | .error e => some e) }

/-- One step; `none` when the action is not possible. -/
def step (s : PaiExchange) : Action → Option PaiExchange
  | .input p order drained input =>
      if (s.failed p).isSome ∨ ¬ (s.finder p).Covers order ∨
          ¬ (s.finder p).Drains drained input then none
      else
        match input with
        | .receivedMessage _ => none
        | input => some (s.update p ((s.finder p).onInput order drained input))
  | .deliver p order =>
      if (s.failed p).isSome ∨ ¬ (s.finder p).Covers order then none
      else
        match (s.sent p.other)[s.received p]? with
        | none => none
        | some message =>
            some { s.update p ((s.finder p).onInput order [] (.receivedMessage message)) with
              received := Function.update s.received p (s.received p + 1) }

/-- The two finders at the start. -/
def start (scalar : Role → PsiScalar) : PaiExchange :=
  { finder := fun p => { scalar := scalar p } }

variable {s s' : PaiExchange} {p : Role}

theorem step_input {order : List Nat} {drained : List ReadAuthorisation} {input : PaiFinder.Input}
    (h : step s (.input p order drained input) = some s') :
    s.failed p = none ∧ (s.finder p).Covers order ∧ (s.finder p).Drains drained input ∧
      (∀ m, input ≠ .receivedMessage m) ∧
      s' = s.update p ((s.finder p).onInput order drained input) := by
  simp only [step] at h
  split at h
  · cases h
  · rename_i hcond
    simp only [not_or, not_not, Option.not_isSome_iff_eq_none] at hcond
    obtain ⟨hfailed, hcovers, hdrains⟩ := hcond
    split at h
    · cases h
    · rename_i hne
      exact ⟨hfailed, hcovers, hdrains, fun m hm => hne m hm, (Option.some.inj h).symm⟩

theorem step_deliver {order : List Nat} (h : step s (.deliver p order) = some s') :
    ∃ message, s.failed p = none ∧ (s.finder p).Covers order ∧
      (s.sent p.other)[s.received p]? = some message ∧
      s' = { s.update p ((s.finder p).onInput order [] (.receivedMessage message)) with
        received := Function.update s.received p (s.received p + 1) } := by
  simp only [step] at h
  split at h
  · cases h
  · rename_i hcond
    simp only [not_or, not_not, Option.not_isSome_iff_eq_none] at hcond
    split at h
    · cases h
    · rename_i message hmessage
      exact ⟨message, hcond.1, hcond.2, hmessage, (Option.some.inj h).symm⟩

/-! ## The invariant -/

/-- The messages of the other finder that the finder has received. -/
def delivered (s : PaiExchange) (p : Role) : List IntersectionMessage :=
  (s.sent p.other).take (s.received p)

/-- The binds among the messages. -/
def binds (l : List IntersectionMessage) : List IntersectionMessage :=
  l.filter fun
    | .bindFragment _ _ => true
    | .replyFragment _ _ => false

/-- The replies among the messages. -/
def replies (l : List IntersectionMessage) : List IntersectionMessage :=
  l.filter fun
    | .bindFragment _ _ => false
    | .replyFragment _ _ => true

/-- The fragments of the other finder that the finder has bound. -/
def known (s : PaiExchange) (p : Role) : List LocalFragment :=
  (s.finder p.other).fragments.take (binds (s.delivered p)).length

/-- How many fragments of the finder were replied to. -/
def replied (s : PaiExchange) (p : Role) : Nat := (replies (s.delivered p)).length

/-- What each finder has bound and sent is determined by the fragments of both
and the messages delivered, and it has acted once on each match. -/
structure Inv (s : PaiExchange) : Prop where
  knows : ∀ p, (s.finder p).Knows (s.finder p.other).scalar (s.known p) (s.replied p)
  received_le : ∀ p, s.received p ≤ (s.sent p.other).length
  binds_sent : ∀ p, binds (s.sent p) =
    (s.finder p).fragments.map (bindMessage (s.finder p).scalar)
  replies_sent : ∀ p, replies (s.sent p) =
    (s.known p).mapIdx (replyMessage (s.finder p).scalar (s.finder p.other).scalar)
  nodup : ∀ p, (s.finder p).acted.Nodup
  acted : ∀ p o t, (o, t) ∈ (s.finder p).acted ↔
    Matches (s.finder p).fragments (s.known p) (s.replied p) o t
  requested : ∀ p, ∀ o ∈ (s.finder p).requestedSubspaceCapHandles,
    requests (s.finder p).fragments o = true ∧ ∃ t, (o, t) ∈ (s.finder p).acted
  complete : ∀ p, (s.finder p).Complete
  idle : ∀ p, (s.finder p).pending ≠ none → (s.finder p).fragments = []

theorem inv_start (scalar : Role → PsiScalar) : (start scalar).Inv where
  knows p := ⟨ResourceMap.mirrors_empty, by simpa [known, start] using ResourceMap.mirrors_empty,
    fun h => by simp [start], by simp [replied, delivered, sent, start, messages, replies]⟩
  received_le p := by simp [start]
  binds_sent p := by simp [start, sent, messages, binds]
  replies_sent p := by simp [start, sent, messages, replies, known]
  nodup p := by simp [start]
  acted p o t := by simp [start, Matches]
  requested p := by simp [start]
  complete p x := by simp [start]
  idle p _ := rfl

/-! ## One step -/

theorem messages_append (l l' : List PaiFinder.Output) :
    messages (l ++ l') = messages l ++ messages l' := List.filterMap_append

theorem messages_sendMessage (l : List LocalFragment) (scalar : PsiScalar) :
    messages (l.map fun x => .sendMessage (bindMessage scalar x)) = l.map (bindMessage scalar) := by
  simp [messages, List.filterMap_map]

theorem messages_reaction (own : List LocalFragment) (handle : Nat) (ms : List (Nat × Nat)) :
    messages (ms.filterMap (reaction own handle)) = [] := by
  simp only [messages, List.filterMap_filterMap, List.filterMap_eq_nil_iff]
  intro m _
  unfold reaction
  split
  · rfl
  · split <;> rfl

theorem binds_append (l l' : List IntersectionMessage) : binds (l ++ l') = binds l ++ binds l' :=
  List.filter_append _ _

theorem replies_append (l l' : List IntersectionMessage) :
    replies (l ++ l') = replies l ++ replies l' := List.filter_append _ _

theorem binds_bindMessage (l : List LocalFragment) (scalar : PsiScalar) :
    binds (l.map (bindMessage scalar)) = l.map (bindMessage scalar) ∧
      replies (l.map (bindMessage scalar)) = [] := by
  constructor
  · exact List.filter_eq_self.mpr fun m hm => by
      obtain ⟨x, -, rfl⟩ := List.mem_map.mp hm
      rfl
  · exact List.filter_eq_nil_iff.mpr fun m hm => by
      obtain ⟨x, -, rfl⟩ := List.mem_map.mp hm
      simp [bindMessage]

/-- What an input of the session does to a finder, as far as the other one can
tell: it has more fragments. -/
structure Local (f f' : PaiFinder) (new : List LocalFragment) : Prop where
  knows : ∀ {peerScalar theirs replies}, f.Knows peerScalar theirs replies →
    f'.Knows peerScalar theirs replies
  scalar : f'.scalar = f.scalar
  fragments : f'.fragments = f.fragments ++ new
  messages : messages f'.outputs = messages f.outputs ++ new.map (bindMessage f.scalar)
  acted : f'.acted = f.acted
  requested : f'.requestedSubspaceCapHandles ⊆ f.requestedSubspaceCapHandles
  complete : f.Complete → f'.Complete

theorem Local.same (f : PaiFinder) {requested : Finset Nat}
    {pending : Option (Finset ReadAuthorisation)} {outputs : List PaiFinder.Output}
    (hmessages : PaiFinder.messages outputs = PaiFinder.messages f.outputs)
    (hrequested : requested ⊆ f.requestedSubspaceCapHandles) :
    Local f { f with
      requestedSubspaceCapHandles := requested
      pending := pending
      outputs := outputs } [] :=
  ⟨fun h => ⟨h.own, h.peer, h.info, h.replies_le⟩, rfl, by simp, by simpa using hmessages,
    rfl, hrequested, id⟩

theorem Local.of_submitted {f f' : PaiFinder} {new : List LocalFragment}
    (h : PaiFinder.Submitted f f' new) (hcomplete : f.Complete → f'.Complete) : Local f f' new where
  knows := h.knows
  scalar := h.scalar
  fragments := h.fragments
  messages := by rw [h.outputs, messages_append, messages_sendMessage]
  acted := h.acted
  requested := h.requested.subset
  complete := hcomplete

/-- Nothing is submitted before the session is established. -/
theorem idle_of_reacts {f f' : PaiFinder} {theirs : List LocalFragment} {n : Nat}
    {order : List Nat} {input : PaiFinder.Input} {res : Except PaiFinder.Failure Unit}
    (h : Reacts f theirs n order input res f') (hidle : f.pending ≠ none → f.fragments = [])
    (hpending : f'.pending ≠ none) : f'.fragments = [] := by
  cases h with
  | queued hsome =>
      refine hidle ?_
      rw [hsome]
      simp
  | submitted hnone hnew _ _ => exact absurd (hnew.pending.trans hnone) hpending
  | established _ hnew _ _ => exact absurd hnew.pending hpending
  | establishedAgain _ => exact hidle hpending
  | request _ => exact hidle hpending
  | requestMissing _ => exact hidle hpending
  | readCap _ => exact hidle hpending
  | readCapMissing _ => exact hidle hpending
  | reply _ _ _ => exact hidle hpending
  | replyWrongNamespace _ _ _ => exact hidle hpending
  | replyInvalid _ => exact hidle hpending

theorem exists_local_of_reacts {f f' : PaiFinder} {theirs : List LocalFragment} {n : Nat}
    {order : List Nat} {input : PaiFinder.Input} {res : Except PaiFinder.Failure Unit}
    (h : Reacts f theirs n order input res f') : ∃ new, Local f f' new := by
  have hnone : ∀ outs : List PaiFinder.Output, messages outs = [] →
      messages (f.outputs ++ outs) = messages f.outputs := by
    intro outs houts
    rw [messages_append, houts, List.append_nil]
  cases h with
  | queued _ => exact ⟨[], .same f rfl subset_rfl⟩
  | submitted _ hnew hcomplete _ => exact ⟨_, .of_submitted hnew hcomplete⟩
  | established _ hnew hcomplete _ =>
      have h := Local.of_submitted hnew hcomplete
      exact ⟨_, fun hk => h.knows ⟨hk.own, hk.peer, hk.info, hk.replies_le⟩, h.scalar,
        h.fragments, h.messages, h.acted, h.requested, hcomplete⟩
  | establishedAgain _ => exact ⟨[], .same f rfl subset_rfl⟩
  | request hy =>
      refine ⟨[], .same f (hnone _ ?_) subset_rfl⟩
      simp [messages, List.filterMap_map]
  | requestMissing _ => exact ⟨[], .same f rfl subset_rfl⟩
  | readCap hy =>
      refine ⟨[], .same f (hnone _ ?_) subset_rfl⟩
      simp [messages, List.filterMap_map]
  | readCapMissing _ => exact ⟨[], .same f rfl subset_rfl⟩
  | reply hx _ _ => exact ⟨[], .same f (hnone _ rfl) (Finset.erase_subset _ _)⟩
  | replyWrongNamespace _ _ _ => exact ⟨[], .same f rfl (Finset.erase_subset _ _)⟩
  | replyInvalid _ => exact ⟨[], .same f rfl subset_rfl⟩

/-- One finder has moved: it has the new fragments `new` and has sent `msgs`. -/
structure Moves (s s' : PaiExchange) (p : Role) (new : List LocalFragment)
    (msgs : List IntersectionMessage) : Prop where
  other : s'.finder p.other = s.finder p.other
  received_other : s'.received p.other = s.received p.other
  scalar : (s'.finder p).scalar = (s.finder p).scalar
  fragments : (s'.finder p).fragments = (s.finder p).fragments ++ new
  sent : s'.sent p = s.sent p ++ msgs

theorem Moves.sent_other {new : List LocalFragment} {msgs : List IntersectionMessage}
    (hm : Moves s s' p new msgs) : s'.sent p.other = s.sent p.other := by
  rw [PaiExchange.sent, PaiExchange.sent, hm.other]

theorem Moves.delivered_other {new : List LocalFragment} {msgs : List IntersectionMessage}
    (hm : Moves s s' p new msgs) (hle : s.received p.other ≤ (s.sent p).length) :
    s'.delivered p.other = s.delivered p.other := by
  simp only [delivered, Role.other_other, hm.sent, hm.received_other,
    List.take_append_of_le_length hle]

theorem binds_delivered_isPrefix (s : PaiExchange) (p : Role) :
    binds (s.delivered p) <+: binds (s.sent p.other) := by
  conv_rhs => rw [← List.take_append_drop (s.received p) (s.sent p.other), binds_append]
  exact List.prefix_append _ _

theorem replies_delivered_isPrefix (s : PaiExchange) (p : Role) :
    replies (s.delivered p) <+: replies (s.sent p.other) := by
  conv_rhs => rw [← List.take_append_drop (s.received p) (s.sent p.other), replies_append]
  exact List.prefix_append _ _

theorem Inv.binds_delivered_le (h : s.Inv) (p : Role) :
    (binds (s.delivered p)).length ≤ (s.finder p.other).fragments.length := by
  have := (binds_delivered_isPrefix s p).length_le
  rwa [h.binds_sent, List.length_map] at this

theorem Inv.known_other (h : s.Inv) {new : List LocalFragment} {msgs : List IntersectionMessage}
    (hm : Moves s s' p new msgs) :
    s'.known p.other = s.known p.other ∧ s'.replied p.other = s.replied p.other := by
  have hle := h.received_le p.other
  rw [Role.other_other] at hle
  have hd := hm.delivered_other hle
  have hlen := h.binds_delivered_le p.other
  rw [Role.other_other] at hlen
  constructor
  · simp only [known, Role.other_other, hd, hm.fragments, List.take_append_of_le_length hlen]
  · rw [replied, replied, hd]

/-- The invariant concerns only the finder that has moved. -/
theorem Inv.of_moves (h : s.Inv) {new : List LocalFragment} {msgs : List IntersectionMessage}
    (hm : Moves s s' p new msgs)
    (hknows : (s'.finder p).Knows (s.finder p.other).scalar (s'.known p) (s'.replied p))
    (hreceived : s'.received p ≤ (s.sent p.other).length)
    (hbinds : binds msgs = new.map (bindMessage (s.finder p).scalar))
    (hreplies : replies (s.sent p) ++ replies msgs =
      (s'.known p).mapIdx (replyMessage (s.finder p).scalar (s.finder p.other).scalar))
    (hnodup : (s'.finder p).acted.Nodup)
    (hacted : ∀ o t, (o, t) ∈ (s'.finder p).acted ↔
      Matches (s'.finder p).fragments (s'.known p) (s'.replied p) o t)
    (hrequested : ∀ o ∈ (s'.finder p).requestedSubspaceCapHandles,
      requests (s'.finder p).fragments o = true ∧ ∃ t, (o, t) ∈ (s'.finder p).acted)
    (hcomplete : (s'.finder p).Complete)
    (hidle : (s'.finder p).pending ≠ none → (s'.finder p).fragments = []) : s'.Inv := by
  obtain ⟨hknown, hreplied⟩ := h.known_other hm
  have hle := h.received_le p.other
  rw [Role.other_other] at hle
  refine ⟨?_, ?_, ?_, ?_, ?_, ?_, ?_, ?_, ?_⟩
  · refine Role.forall_of p ?_ ?_
    · rw [hm.other]
      exact hknows
    · have := h.knows p.other
      rw [Role.other_other] at this ⊢
      rwa [hm.other, hm.scalar, hknown, hreplied]
  · refine Role.forall_of p ?_ ?_
    · rw [hm.sent_other]
      exact hreceived
    · rw [Role.other_other, hm.sent, hm.received_other, List.length_append]
      omega
  · refine Role.forall_of p ?_ ?_
    · rw [hm.sent, binds_append, h.binds_sent, hbinds, hm.fragments, hm.scalar, List.map_append]
    · rw [hm.sent_other, hm.other]
      exact h.binds_sent _
  · refine Role.forall_of p ?_ ?_
    · rw [hm.sent, replies_append, hm.scalar, hm.other]
      exact hreplies
    · have := h.replies_sent p.other
      rw [Role.other_other] at this ⊢
      rwa [hm.sent_other, hm.other, hknown, hm.scalar]
  · refine Role.forall_of p hnodup ?_
    rw [hm.other]
    exact h.nodup _
  · refine Role.forall_of p hacted ?_
    rw [hm.other, hknown, hreplied]
    exact h.acted _
  · refine Role.forall_of p hrequested ?_
    rw [hm.other]
    exact h.requested _
  · refine Role.forall_of p hcomplete ?_
    rw [hm.other]
    exact h.complete _
  · refine Role.forall_of p hidle ?_
    rw [hm.other]
    exact h.idle _

omit [PaiScheme] in
theorem requests_append {own : List LocalFragment} {o : Nat} (h : requests own o = true)
    (new : List LocalFragment) : requests (own ++ new) o = true := by
  unfold requests at h ⊢
  cases hx : own[o]? with
  | none => simp [hx] at h
  | some x =>
      rw [List.getElem?_append_left (List.getElem?_eq_some_iff.mp hx).1, hx]
      simpa [hx] using h

omit [PaiScheme] in
theorem lt_of_requests {own : List LocalFragment} {o : Nat} (h : requests own o = true) :
    o < own.length := by
  by_contra hle
  simp [requests, List.getElem?_eq_none_iff.mpr (Nat.not_lt.mp hle)] at h

omit [PaiScheme] in
/-- Later fragments do not matter for the fragments replied to. -/
theorem matches_append {own new theirs : List LocalFragment} {n o t : Nat} (hn : n ≤ own.length) :
    Matches (own ++ new) theirs n o t ↔ Matches own theirs n o t := by
  refine and_congr_right fun ho => ?_
  rw [List.getElem?_append_left (ho.trans_le hn)]

theorem Inv.input (hlaw : PaiScheme.Lawful) (h : s.Inv) {order : List Nat}
    {drained : List ReadAuthorisation} {input : PaiFinder.Input}
    (hstep : step s (.input p order drained input) = some s') :
    Reacts (s.finder p) (s.known p) (s.replied p) order input
      ((s.finder p).onInput order drained input).1 (s'.finder p) ∧ s'.Inv := by
  obtain ⟨-, hcovers, hdrains, hne, rfl⟩ := step_input hstep
  have hreacts : Reacts (s.finder p) (s.known p) (s.replied p) order input
      ((s.finder p).onInput order drained input).1 ((s.finder p).onInput order drained input).2 :=
    (h.knows p).reacts hlaw (fun o ho => lt_of_requests (h.requested p o ho).1) hdrains hne
  set f' := ((s.finder p).onInput order drained input).2 with hf'
  have hself : (s.update p ((s.finder p).onInput order drained input)).finder p = f' := by
    simp [update, hf']
  refine ⟨hself ▸ hreacts, ?_⟩
  obtain ⟨new, hlocal⟩ := exists_local_of_reacts hreacts
  have hother : (s.update p ((s.finder p).onInput order drained input)).finder p.other =
      s.finder p.other := Function.update_of_ne p.other_ne _ _
  have hm : Moves s (s.update p ((s.finder p).onInput order drained input)) p new
      (new.map (bindMessage (s.finder p).scalar)) :=
    { other := hother
      received_other := rfl
      scalar := by rw [hself, hlocal.scalar]
      fragments := by rw [hself, hlocal.fragments]
      sent := by rw [sent, hself, hlocal.messages]; rfl }
  have hdelivered : (s.update p ((s.finder p).onInput order drained input)).delivered p =
      s.delivered p := by rw [delivered, hm.sent_other]; rfl
  have hknown : (s.update p ((s.finder p).onInput order drained input)).known p = s.known p := by
    rw [known, hother, hdelivered]
    rfl
  have hreplied : (s.update p ((s.finder p).onInput order drained input)).replied p =
      s.replied p := by rw [replied, hdelivered]; rfl
  obtain ⟨hbinds, hreplies⟩ := binds_bindMessage new (s.finder p).scalar
  refine h.of_moves hm ?_ (h.received_le p) hbinds ?_ ?_ ?_ ?_ ?_ ?_
  · rw [hself, hknown, hreplied]
    exact hlocal.knows (h.knows p)
  · rw [hreplies, List.append_nil, hknown]
    exact h.replies_sent p
  · rw [hself, hlocal.acted]
    exact h.nodup p
  · intro o t
    rw [hself, hknown, hreplied, hlocal.acted, hlocal.fragments,
      matches_append (h.knows p).replies_le]
    exact h.acted p o t
  · intro o ho
    rw [hself] at ho ⊢
    obtain ⟨hreq, t, ht⟩ := h.requested p o (hlocal.requested ho)
    rw [hlocal.fragments, hlocal.acted]
    exact ⟨requests_append hreq new, t, ht⟩
  · rw [hself]
    exact hlocal.complete (h.complete p)
  · rw [hself]
    exact idle_of_reacts hreacts (h.idle p)

/-- The next message is the bind of a further fragment of the other finder, or the
reply to a further fragment of ours; `handle` is that of the fragment. -/
inductive Progress (s s' : PaiExchange) (p : Role) (handle : Nat) : IntersectionMessage → Prop
  | bind {y : LocalFragment} (hknown : s'.known p = s.known p ++ [y])
      (hreplied : s'.replied p = s.replied p) (hhandle : handle = (s.known p).length) :
      Progress s s' p handle (bindMessage (s.finder p.other).scalar y)
  | reply {x : LocalFragment} (hx : (s.finder p).fragments[s.replied p]? = some x)
      (hknown : s'.known p = s.known p) (hreplied : s'.replied p = s.replied p + 1)
      (hhandle : handle = s.replied p) :
      Progress s s' p handle
        (replyMessage (s.finder p.other).scalar (s.finder p).scalar handle x)

/-- The finder has received a message without an error. -/
structure Delivery (s s' : PaiExchange) (p : Role) (message : IntersectionMessage) (handle : Nat)
    (sent : List PaiFinder.Output) (ms : List (Nat × Nat)) : Prop where
  next : (s.sent p.other)[s.received p]? = some message
  progress : Progress s s' p handle message
  checked : Checked (s.finder p) (s'.finder p) handle sent ms
  other : s'.finder p.other = s.finder p.other
  received_other : s'.received p.other = s.received p.other
  delivered : s'.delivered p = s.delivered p ++ [message]
  received : s'.received p ≤ (s.sent p.other).length
  failed : s'.failed = s.failed
  only_messages : ∀ o ∈ sent, ∃ m, o = .sendMessage m
  nodup : ms.Nodup
  /-- The pairs acted on are those that match now and did not before. -/
  mem : ∀ o t, (o, t) ∈ ms ↔
    Matches (s.finder p).fragments (s'.known p) (s'.replied p) o t ∧
      ¬ Matches (s.finder p).fragments (s.known p) (s.replied p) o t

theorem Delivery.moves {message : IntersectionMessage} {handle : Nat}
    {sent : List PaiFinder.Output} {ms : List (Nat × Nat)}
    (h : Delivery s s' p message handle sent ms) : Moves s s' p [] (messages sent) where
  other := h.other
  received_other := h.received_other
  scalar := h.checked.scalar
  fragments := by rw [h.checked.fragments, List.append_nil]
  sent := by
    rw [PaiExchange.sent, h.checked.outputs, messages_append, messages_append, messages_reaction,
      List.append_nil]
    rfl

omit [PaiScheme] in
/-- What matched goes on to match. -/
theorem matches_mono {own theirs theirs' : List LocalFragment} {n n' o t : Nat}
    (hle : n ≤ n') (hpre : theirs <+: theirs') (h : Matches own theirs n o t) :
    Matches own theirs' n' o t := by
  obtain ⟨ho, x, y, hx, hy, hmeets⟩ := h
  exact ⟨ho.trans_le hle, x, y, hx, getElem?_of_isPrefix hpre hy, hmeets⟩

theorem Inv.of_delivery (h : s.Inv) {message : IntersectionMessage} {handle : Nat}
    {sent : List PaiFinder.Output} {ms : List (Nat × Nat)}
    (hd : Delivery s s' p message handle sent ms)
    (hknows : (s'.finder p).Knows (s.finder p.other).scalar (s'.known p) (s'.replied p))
    (hbinds : binds (messages sent) = [])
    (hreplies : replies (s.sent p) ++ replies (messages sent) =
      (s'.known p).mapIdx (replyMessage (s.finder p).scalar (s.finder p.other).scalar))
    (hle : s.replied p ≤ s'.replied p) (hpre : s.known p <+: s'.known p) : s'.Inv := by
  have hc := hd.checked
  refine h.of_moves hd.moves hknows hd.received hbinds hreplies ?_ ?_ ?_ ?_ ?_
  · rw [hc.acted]
    refine List.nodup_append.mpr ⟨h.nodup p, hd.nodup, ?_⟩
    rintro ⟨o, t⟩ hold m hnew rfl
    exact ((hd.mem o t).mp hnew).2 ((h.acted p o t).mp hold)
  · intro o t
    rw [hc.acted, hc.fragments, List.mem_append, h.acted p o t, hd.mem o t]
    constructor
    · rintro (hold | hnew)
      · exact matches_mono hle hpre hold
      · exact hnew.1
    · intro hmatch
      exact (Classical.em _).imp_right fun hold => ⟨hmatch, hold⟩
  · intro o ho
    rw [hc.requested, Finset.mem_union, List.mem_toFinset, List.mem_filter, List.mem_map] at ho
    rw [hc.fragments, hc.acted]
    rcases ho with ho | ⟨⟨⟨o', t⟩, hmem, rfl⟩, hreq⟩
    · obtain ⟨hreq, t, ht⟩ := h.requested p o ho
      exact ⟨hreq, t, List.mem_append_left _ ht⟩
    · exact ⟨hreq, t, List.mem_append_right _ hmem⟩
  · intro x
    rw [hc.fragments, hc.submitted]
    exact h.complete p x
  · rw [hc.pending, hc.fragments]
    exact h.idle p

/-- A message was taken from the channel and handed to the finder. -/
structure Takes (s s' : PaiExchange) (p : Role) (order : List Nat)
    (message : IntersectionMessage) : Prop where
  covers : (s.finder p).Covers order
  next : (s.sent p.other)[s.received p]? = some message
  other : s'.finder p.other = s.finder p.other
  received : s'.received p = s.received p + 1
  received_other : s'.received p.other = s.received p.other
  ok : ∀ f', (s.finder p).onInput order [] (.receivedMessage message) = (.ok (), f') →
    s'.finder p = f' ∧ s'.failed = s.failed

theorem takes_of_step {order : List Nat} (h : step s (.deliver p order) = some s') :
    ∃ message, Takes s s' p order message := by
  obtain ⟨message, hfailed, hcovers, hmessage, rfl⟩ := step_deliver h
  refine ⟨message, hcovers, hmessage, Function.update_of_ne p.other_ne _ _,
    Function.update_self _ _ _, Function.update_of_ne p.other_ne _ _, fun f' hok => ?_⟩
  rw [hok]
  refine ⟨by simp [update], ?_⟩
  show Function.update s.failed p none = s.failed
  rw [← hfailed, Function.update_eq_self]

variable {order : List Nat} {message : IntersectionMessage}

theorem Takes.delivered (h : Takes s s' p order message) :
    s'.delivered p = s.delivered p ++ [message] := by
  have hnext : (messages (s.finder p.other).outputs)[s.received p]? = some message := h.next
  rw [PaiExchange.delivered, sent, h.other, h.received, List.take_add_one, hnext]
  rfl

theorem delivered_concat_isPrefix (hnext : (s.sent p.other)[s.received p]? = some message) :
    s.delivered p ++ [message] <+: s.sent p.other := by
  have htake : s.delivered p ++ [message] = (s.sent p.other).take (s.received p + 1) := by
    rw [List.take_add_one, hnext]
    rfl
  rw [htake]
  exact List.take_prefix _ _

theorem Inv.length_known (h : s.Inv) (p : Role) :
    (s.known p).length = (binds (s.delivered p)).length := by
  rw [known, List.length_take, min_eq_left (h.binds_delivered_le p)]

/-- The next bind is that of the next fragment of the other finder. -/
theorem Inv.next_bind (h : s.Inv) {member : GroupBytes} {isSecondary : Bool}
    (hnext : (s.sent p.other)[s.received p]? = some (.bindFragment member isSecondary)) :
    ∃ y, (s.finder p.other).fragments[(s.known p).length]? = some y ∧
      .bindFragment member isSecondary = bindMessage (s.finder p.other).scalar y := by
  have hpre : binds (s.delivered p) ++ [.bindFragment member isSecondary] <+:
      binds (s.sent p.other) := by
    obtain ⟨rest, hrest⟩ := delivered_concat_isPrefix hnext
    rw [← hrest, binds_append, binds_append]
    exact List.prefix_append _ _
  rw [h.binds_sent] at hpre
  have hget := getElem?_of_isPrefix hpre (i := (binds (s.delivered p)).length)
    (a := .bindFragment member isSecondary) (by simp)
  rw [List.getElem?_map, Option.map_eq_some_iff] at hget
  obtain ⟨y, hy, hbind⟩ := hget
  exact ⟨y, (h.length_known p).symm ▸ hy, hbind.symm⟩

/-- The next reply is that to the next fragment of ours. -/
theorem Inv.next_reply (h : s.Inv) {handle : Nat} {member : GroupBytes}
    (hnext : (s.sent p.other)[s.received p]? = some (.replyFragment handle member)) :
    ∃ x, (s.finder p).fragments[s.replied p]? = some x ∧ .replyFragment handle member =
      replyMessage (s.finder p.other).scalar (s.finder p).scalar (s.replied p) x := by
  have hpre : replies (s.delivered p) ++ [.replyFragment handle member] <+:
      replies (s.sent p.other) := by
    obtain ⟨rest, hrest⟩ := delivered_concat_isPrefix hnext
    rw [← hrest, replies_append, replies_append]
    exact List.prefix_append _ _
  rw [h.replies_sent, Role.other_other] at hpre
  have hget := getElem?_of_isPrefix hpre (i := s.replied p) (a := .replyFragment handle member)
    (by simp [replied])
  rw [List.getElem?_mapIdx, Option.map_eq_some_iff] at hget
  obtain ⟨x, hx, hreply⟩ := hget
  rw [known, Role.other_other] at hx
  exact ⟨x, getElem?_of_isPrefix (List.take_prefix _ _) hx, hreply.symm⟩

theorem Takes.received_le (ht : Takes s s' p order message) :
    s'.received p ≤ (s.sent p.other).length := by
  rw [ht.received]
  exact (List.getElem?_eq_some_iff.mp ht.next).1

theorem Inv.deliver_bind (hlaw : PaiScheme.Lawful) (h : s.Inv) {y : LocalFragment}
    (hy : (s.finder p.other).fragments[(s.known p).length]? = some y)
    (ht : Takes s s' p order (bindMessage (s.finder p.other).scalar y)) :
    (∃ message handle sent ms, Delivery s s' p message handle sent ms) ∧ s'.Inv := by
  have hreplied : s'.replied p = s.replied p := by
    rw [replied, replied, ht.delivered, replies_append]
    simp [replies, bindMessage]
  have hknown : s'.known p = s.known p ++ [y] := by
    rw [h.length_known] at hy
    have hone : binds [bindMessage (s.finder p.other).scalar y] = [bindMessage _ y] := rfl
    rw [known, known, ht.other, ht.delivered, binds_append, hone, List.length_append,
      List.length_singleton, List.take_add_one, hy]
    rfl
  obtain ⟨f', ms, hok, hknows, hnodup, hmem, hchecked⟩ :=
    (h.knows p).receiveBind hlaw ht.covers y
  obtain ⟨hf', hfailed⟩ := ht.ok f' hok
  have hd : Delivery s s' p (bindMessage (s.finder p.other).scalar y) (s.known p).length
      [.sendMessage (replyMessage (s.finder p).scalar (s.finder p.other).scalar
        (s.known p).length y)] ms := by
    refine ⟨ht.next, .bind hknown hreplied rfl, hf' ▸ hchecked, ht.other, ht.received_other,
      ht.delivered, ht.received_le, hfailed, by simp, hnodup, fun o t => ?_⟩
    rw [hmem o t, hknown, hreplied]
    constructor
    · rintro ⟨rfl, hmatch⟩
      refine ⟨hmatch, ?_⟩
      rintro ⟨-, _, _, -, hy', -⟩
      simp at hy'
    · rintro ⟨hmatch, hnot⟩
      refine ⟨?_, hmatch⟩
      obtain ⟨ho, x, y', hx, hy', hmeets⟩ := hmatch
      by_contra hne
      refine hnot ⟨ho, x, y', hx, ?_, hmeets⟩
      rcases lt_or_gt_of_ne hne with hlt | hgt
      · rwa [List.getElem?_append_left hlt] at hy'
      · rw [List.getElem?_eq_none_iff.mpr (by simp; omega)] at hy'
        cases hy'
  refine ⟨⟨_, _, _, _, hd⟩, h.of_delivery hd ?_ rfl ?_ hreplied.ge ?_⟩
  · rw [hknown, hreplied, hf']
    exact hknows
  · rw [hknown, List.mapIdx_append, h.replies_sent p]
    simp [messages, replies, replyMessage]
  · rw [hknown]
    exact List.prefix_append _ _

theorem Inv.deliver_reply (hlaw : PaiScheme.Lawful) (h : s.Inv) {x : LocalFragment}
    (hx : (s.finder p).fragments[s.replied p]? = some x)
    (ht : Takes s s' p order
      (replyMessage (s.finder p.other).scalar (s.finder p).scalar (s.replied p) x)) :
    (∃ message handle sent ms, Delivery s s' p message handle sent ms) ∧ s'.Inv := by
  have hknown : s'.known p = s.known p := by
    rw [known, known, ht.other, ht.delivered, binds_append]
    simp [binds, replyMessage]
  have hreplied : s'.replied p = s.replied p + 1 := by
    rw [replied, replied, ht.delivered, replies_append, List.length_append]
    rfl
  obtain ⟨f', ms, hok, hknows, hnodup, hmem, hchecked⟩ :=
    (h.knows p).receiveReply hlaw ht.covers hx
  obtain ⟨hf', hfailed⟩ := ht.ok f' hok
  have hd : Delivery s s' p (replyMessage (s.finder p.other).scalar (s.finder p).scalar
      (s.replied p) x) (s.replied p) [] ms := by
    refine ⟨ht.next, .reply hx hknown hreplied rfl, hf' ▸ hchecked, ht.other, ht.received_other,
      ht.delivered, ht.received_le, hfailed, by simp, hnodup, fun o t => ?_⟩
    rw [hmem o t, hknown, hreplied]
    constructor
    · rintro ⟨rfl, hmatch⟩
      exact ⟨hmatch, fun hold => absurd hold.1 (lt_irrefl _)⟩
    · rintro ⟨hmatch, hnot⟩
      refine ⟨?_, hmatch⟩
      by_contra hne
      have ho := hmatch.1
      exact hnot ⟨by omega, hmatch.2⟩
  refine ⟨⟨_, _, _, _, hd⟩, h.of_delivery hd ?_ rfl ?_ (by omega) (hknown ▸ List.prefix_refl _)⟩
  · rw [hknown, hreplied, hf']
    exact hknows
  · rw [hknown]
    simpa [messages, replies] using h.replies_sent p

/-- **The delivery of a message** never fails. -/
theorem Inv.deliver (hlaw : PaiScheme.Lawful) (h : s.Inv)
    (hstep : step s (.deliver p order) = some s') :
    (∃ message handle sent ms, Delivery s s' p message handle sent ms) ∧ s'.Inv := by
  obtain ⟨message, ht⟩ := takes_of_step hstep
  cases message with
  | bindFragment member isSecondary =>
      obtain ⟨y, hy, heq⟩ := h.next_bind ht.next
      exact h.deliver_bind hlaw hy (heq ▸ ht)
  | replyFragment handle member =>
      obtain ⟨x, hx, heq⟩ := h.next_reply ht.next
      exact h.deliver_reply hlaw hx (heq ▸ ht)

theorem Inv.step (hlaw : PaiScheme.Lawful) (h : s.Inv) {a : Action}
    (hstep : PaiExchange.step s a = some s') : s'.Inv := by
  cases a with
  | input p order drained input => exact (h.input hlaw hstep).2
  | deliver p order => exact (h.deliver hlaw hstep).2

theorem inv_of_reachable (hlaw : PaiScheme.Lawful) {scalar : Role → PsiScalar}
    {Allowed : PaiExchange → Action → Prop}
    (h : Transition.Reachable PaiExchange.step Allowed (start scalar) s) : s.Inv :=
  h.invariant (inv_start scalar) fun _ _ _ hinv _ hstep => hinv.step hlaw hstep

/-! ## Exactly once -/

/-- The fragments of both finders under the two handles are equal and not both
secondary. -/
def MeetAt (s : PaiExchange) (p : Role) (o t : Nat) : Prop :=
  ∃ x y, (s.finder p).fragments[o]? = some x ∧ (s.finder p.other).fragments[t]? = some y ∧
    x.Meets y

/-- No message is on its way. -/
def Quiet (s : PaiExchange) : Prop := ∀ p, s.received p = (s.sent p.other).length

theorem Quiet.delivered (hq : s.Quiet) (p : Role) : s.delivered p = s.sent p.other := by
  rw [PaiExchange.delivered, hq p, List.take_length]

theorem Inv.known_of_quiet (h : s.Inv) (hq : s.Quiet) (p : Role) :
    s.known p = (s.finder p.other).fragments := by
  rw [known, hq.delivered, h.binds_sent, List.length_map, List.take_length]

theorem Inv.replied_of_quiet (h : s.Inv) (hq : s.Quiet) (p : Role) :
    s.replied p = (s.finder p).fragments.length := by
  rw [replied, hq.delivered, h.replies_sent, List.length_mapIdx, h.known_of_quiet hq,
    Role.other_other]

theorem Inv.meetAt_of_acted (h : s.Inv) {o t : Nat} (ha : (o, t) ∈ (s.finder p).acted) :
    s.MeetAt p o t := by
  obtain ⟨-, x, y, hx, hy, hmeets⟩ := (h.acted p o t).mp ha
  exact ⟨x, y, hx, getElem?_of_isPrefix (List.take_prefix _ _) hy, hmeets⟩

theorem Inv.acted_of_quiet (h : s.Inv) (hq : s.Quiet) {o t : Nat} (hmeet : s.MeetAt p o t) :
    (o, t) ∈ (s.finder p).acted := by
  obtain ⟨x, y, hx, hy, hmeets⟩ := hmeet
  refine (h.acted p o t).mpr ⟨?_, x, y, hx, ?_, hmeets⟩
  · rw [h.replied_of_quiet hq]
    exact (List.getElem?_eq_some_iff.mp hx).1
  · rw [h.known_of_quiet hq]
    exact hy

/-- **Exactly once.** In every run of two finders with arbitrary inputs, each acts
on a pair of handles at most once and only when the fragments meet, and when no
message is on its way it has acted on all such pairs. -/
theorem acts_exactly_once (hlaw : PaiScheme.Lawful) {scalar : Role → PsiScalar} {s : PaiExchange}
    (hs : Transition.Reachable PaiExchange.step (fun _ _ => True) (start scalar) s) (p : Role) :
    (∀ o t, (s.finder p).acted.count (o, t) ≤ 1) ∧
      (∀ o t, (o, t) ∈ (s.finder p).acted → s.MeetAt p o t) ∧
      (s.Quiet → ∀ o t, s.MeetAt p o t → (o, t) ∈ (s.finder p).acted) := by
  have h := inv_of_reachable hlaw hs
  refine ⟨fun o t => ?_, fun o t => h.meetAt_of_acted, fun hq o t => h.acted_of_quiet hq⟩
  exact List.nodup_iff_count_le_one.mp (h.nodup p) (o, t)

/-! ## Where intersections come from -/

omit [PaiScheme] in
theorem onIntersection_info (x : LocalFragment) :
    x.info.onIntersection = OnIntersection.new x.kind x.isMostSpecific := rfl

omit [PaiScheme] in
theorem isMostSpecific_of_requests {own : List LocalFragment} {o : Nat} {x : LocalFragment}
    (hx : own[o]? = some x) (h : requests own o = true) :
    x.kind = .secondary ∧ x.isMostSpecific = true := by
  simp only [requests, hx, onIntersection_info] at h
  cases hk : x.kind <;> cases hm : x.isMostSpecific <;> simp [hk, hm, OnIntersection.new] at h ⊢

omit [PaiScheme] in
theorem of_bindReadCap {x : LocalFragment} (h : x.info.onIntersection = .bindReadCap) :
    x.kind = .primary ∧ x.isMostSpecific = true := by
  rw [onIntersection_info] at h
  cases hk : x.kind <;> cases hm : x.isMostSpecific <;> simp [hk, hm, OnIntersection.new] at h ⊢

omit [PaiScheme] in
theorem of_replyReadCap {x : LocalFragment} (h : x.info.onIntersection = .replyReadCap) :
    x.kind = .primary ∧ x.isMostSpecific = false := by
  rw [onIntersection_info] at h
  cases hk : x.kind <;> cases hm : x.isMostSpecific <;> simp [hk, hm, OnIntersection.new] at h ⊢

/-- An intersection was put out for our fragment `x`, which meets the fragment of
the other finder under `t`: either `x` is the most specific one of its
authorisation, or a read capability came for `t`. -/
structure Found (s : PaiExchange) (p : Role) (a : Action) (i : PaiIntersection)
    (x : LocalFragment) (t : Nat) (y : LocalFragment) : Prop where
  own : (s.finder p).fragments[i.handle]? = some x
  authorisation : i.authorisation = x.authorisation
  peer : (s.finder p.other).fragments[t]? = some y
  meets : x.Meets y
  cause : x.isMostSpecific = true ∨ x.info.onIntersection = .replyReadCap ∧
    i.handle < s.replied p ∧
    ∃ order drained, a = .input p order drained (.receivedReadCapForIntersection t)

/-- Our subspace capability was requested for a fragment of the other finder that
is equal to one of ours. -/
structure Asked (s : PaiExchange) (p : Role) (a : Action) (handle : Nat)
    (capability : SubspaceCapability) (o : Nat) (x y : LocalFragment) : Prop where
  own : (s.finder p).fragments[o]? = some x
  replied : o < s.replied p
  capability : x.authorisation.subspaceCap = some capability
  peer : (s.known p)[handle]? = some y
  equal : x.fragment = y.fragment
  cause : ∃ order drained, a = .input p order drained (.receivedSubspaceCapRequest handle)

/-- Why a finder puts something out. -/
inductive Explained (s : PaiExchange) (p : Role) (a : Action) : PaiFinder.Output → Prop
  | message (message : IntersectionMessage) : Explained s p a (.sendMessage message)
  | request (handle : Nat) : Explained s p a (.requestSubspaceCapability handle)
  | intersection {i : PaiIntersection} {x : LocalFragment} {t : Nat} {y : LocalFragment}
      (h : Found s p a i x t y) : Explained s p a (.newIntersection i)
  | subspaceCap {handle : Nat} {capability : SubspaceCapability} {o : Nat} {x y : LocalFragment}
      (h : Asked s p a handle capability o x y) :
      Explained s p a (.signAndSendSubspaceCap handle capability)

theorem known_isPrefix (s : PaiExchange) (p : Role) :
    s.known p <+: (s.finder p.other).fragments := List.take_prefix _ _

theorem explained_of_reacts (h : s.Inv) {order : List Nat} {drained : List ReadAuthorisation}
    {input : PaiFinder.Input} {res : Except PaiFinder.Failure Unit} {f' : PaiFinder}
    (hr : Reacts (s.finder p) (s.known p) (s.replied p) order input res f') :
    ∃ new, f'.outputs = (s.finder p).outputs ++ new ∧
      ∀ o ∈ new, Explained s p (.input p order drained input) o := by
  cases hr with
  | queued _ => exact ⟨[], by simp, by simp⟩
  | submitted _ hnew _ _ =>
      refine ⟨_, hnew.outputs, fun o ho => ?_⟩
      obtain ⟨x, -, rfl⟩ := List.mem_map.mp ho
      exact .message _
  | established _ hnew _ _ =>
      refine ⟨_, hnew.outputs, fun o ho => ?_⟩
      obtain ⟨x, -, rfl⟩ := List.mem_map.mp ho
      exact .message _
  | establishedAgain _ => exact ⟨[], by simp, by simp⟩
  | @request t y hy =>
      refine ⟨_, rfl, fun out hout => ?_⟩
      simp only [List.mem_map, List.mem_filterMap] at hout
      obtain ⟨cap, ⟨o, -, ho⟩, rfl⟩ := hout
      unfold PaiFinder.answerTo at ho
      split at ho
      · cases ho
      · rename_i x hx
        split at ho
        · rename_i hcond
          exact .subspaceCap ⟨hx, hcond.1, ho, hy, hcond.2, order, drained, rfl⟩
        · cases ho
  | requestMissing _ => exact ⟨[], by simp, by simp⟩
  | @readCap t y hy =>
      refine ⟨_, rfl, fun out hout => ?_⟩
      simp only [List.mem_map, List.mem_filterMap] at hout
      obtain ⟨i, ⟨o, -, ho⟩, rfl⟩ := hout
      unfold PaiFinder.replyTo at ho
      split at ho
      · cases ho
      · rename_i x hx
        split at ho
        · rename_i hcond
          obtain rfl := Option.some.inj ho
          exact .intersection ⟨hx, rfl, getElem?_of_isPrefix (known_isPrefix s p) hy, hcond.2.1,
            .inr ⟨hcond.2.2, hcond.1, order, drained, rfl⟩⟩
        · cases ho
  | readCapMissing _ => exact ⟨[], by simp, by simp⟩
  | @reply o ns x hx hrequested _ =>
      refine ⟨_, rfl, fun out hout => ?_⟩
      obtain rfl := List.mem_singleton.mp hout
      obtain ⟨hreq, t, ht⟩ := h.requested p o hrequested
      obtain ⟨x', y, hx', hy, hmeets⟩ := h.meetAt_of_acted ht
      obtain rfl : x' = x := Option.some.inj (hx'.symm.trans hx)
      exact .intersection ⟨hx, rfl, hy, hmeets, .inl (isMostSpecific_of_requests hx hreq).2⟩
  | replyWrongNamespace _ _ _ => exact ⟨[], by simp, by simp⟩
  | replyInvalid _ => exact ⟨[], by simp, by simp⟩

theorem Delivery.explained {order : List Nat} {message : IntersectionMessage} {handle : Nat}
    {sent : List PaiFinder.Output} {ms : List (Nat × Nat)}
    (hd : Delivery s s' p message handle sent ms) :
    ∃ new, (s'.finder p).outputs = (s.finder p).outputs ++ new ∧
      ∀ o ∈ new, Explained s p (.deliver p order) o := by
  refine ⟨_, by rw [hd.checked.outputs, List.append_assoc], fun out hout => ?_⟩
  rcases List.mem_append.mp hout with hout | hout
  · obtain ⟨m, rfl⟩ := hd.only_messages out hout
    exact .message m
  · obtain ⟨⟨o, t⟩, hmem, hreaction⟩ := List.mem_filterMap.mp hout
    obtain ⟨⟨-, x, y, hx, hy, hmeets⟩, -⟩ := (hd.mem o t).mp hmem
    simp only [reaction, hx] at hreaction
    have hy' : (s.finder p.other).fragments[t]? = some y := by
      rw [← hd.other]
      exact getElem?_of_isPrefix (known_isPrefix s' p) hy
    cases hon : x.info.onIntersection with
    | doNothing => simp [hon] at hreaction
    | replyReadCap => simp [hon] at hreaction
    | requestSubspaceCap =>
        rw [hon] at hreaction
        obtain rfl := Option.some.inj hreaction
        exact .request _
    | bindReadCap =>
        rw [hon] at hreaction
        obtain rfl := Option.some.inj hreaction
        exact .intersection ⟨hx, rfl, hy', hmeets, .inl (of_bindReadCap hon).2⟩

/-- The finder that takes a step. -/
def Action.peer : Action → Role
  | .input p _ _ _ => p
  | .deliver p _ => p

theorem finder_other_of_step {a : Action} (hstep : PaiExchange.step s a = some s') :
    s'.finder a.peer.other = s.finder a.peer.other ∧
      s'.failed a.peer.other = s.failed a.peer.other := by
  cases a with
  | input p order drained input =>
      obtain ⟨-, -, -, -, rfl⟩ := step_input hstep
      exact ⟨Function.update_of_ne p.other_ne _ _, Function.update_of_ne p.other_ne _ _⟩
  | deliver p order =>
      obtain ⟨message, -, -, -, rfl⟩ := step_deliver hstep
      exact ⟨Function.update_of_ne p.other_ne _ _, Function.update_of_ne p.other_ne _ _⟩

/-- Fragments and outputs are only added, and every output has its reason. -/
theorem Inv.explained (hlaw : PaiScheme.Lawful) (h : s.Inv) {a : Action}
    (hstep : PaiExchange.step s a = some s') :
    (∃ new, (s'.finder a.peer).fragments = (s.finder a.peer).fragments ++ new) ∧
      ∃ new, (s'.finder a.peer).outputs = (s.finder a.peer).outputs ++ new ∧
        ∀ o ∈ new, Explained s a.peer a o := by
  cases a with
  | input p order drained input =>
      obtain ⟨hreacts, -⟩ := h.input hlaw hstep
      obtain ⟨new, hlocal⟩ := exists_local_of_reacts hreacts
      exact ⟨⟨new, hlocal.fragments⟩, explained_of_reacts h hreacts⟩
  | deliver p order =>
      obtain ⟨⟨message, handle, sent, ms, hd⟩, -⟩ := h.deliver hlaw hstep
      exact ⟨⟨[], hd.moves.fragments⟩, hd.explained⟩

theorem Inv.fragments_isPrefix (hlaw : PaiScheme.Lawful) (h : s.Inv) {a : Action}
    (hstep : PaiExchange.step s a = some s') :
    ∀ p, (s.finder p).fragments <+: (s'.finder p).fragments := by
  obtain ⟨⟨new, hnew⟩, -⟩ := h.explained hlaw hstep
  refine Role.forall_of a.peer ?_ ?_
  · rw [hnew]
    exact List.prefix_append _ _
  · rw [(finder_other_of_step hstep).1]

theorem Inv.outputs_isPrefix (hlaw : PaiScheme.Lawful) (h : s.Inv) {a : Action}
    (hstep : PaiExchange.step s a = some s') :
    ∀ p, (s.finder p).outputs <+: (s'.finder p).outputs := by
  obtain ⟨-, new, hnew, -⟩ := h.explained hlaw hstep
  refine Role.forall_of a.peer ?_ ?_
  · rw [hnew]
    exact List.prefix_append _ _
  · rw [(finder_other_of_step hstep).1]

/-- A new intersection was found. -/
theorem Inv.found (hlaw : PaiScheme.Lawful) (h : s.Inv) {a : Action}
    (hstep : PaiExchange.step s a = some s') {i : PaiIntersection}
    (hi : .newIntersection i ∈ (s'.finder p).outputs) :
    .newIntersection i ∈ (s.finder p).outputs ∨ ∃ x t y, Found s p a i x t y := by
  rcases Role.eq_or_eq_other a.peer p with rfl | rfl
  · obtain ⟨-, new, hnew, hexplained⟩ := h.explained hlaw hstep
    rw [hnew] at hi
    rcases List.mem_append.mp hi with hi | hi
    · exact .inl hi
    · cases hexplained _ hi with
      | intersection hfound => exact .inr ⟨_, _, _, hfound⟩
  · rw [(finder_other_of_step hstep).1] at hi
    exact .inl hi

end PaiExchange

end Model

/-! ### One fragment each -/

/-- A read authorisation of the sample user. -/
def Sample.readAuthorisation (subspace : AreaSubspace) (components : List (List Byte))
    (subspaceCap : Option SubspaceCapability) : ReadAuthorisation :=
  { readCap :=
      { accessMode := .read
        receiver := Sample.userId
        grantedNamespace := Sample.namespaceId
        grantedArea := ⟨subspace, Sample.pathOf components, .newOpen 0⟩
        delegations := [] }
    subspaceCap := subspaceCap }

namespace PaiExchange

section Samples

open IrohWillow.Sample

attribute [local instance] countingScheme

/-- Both finders submit an authorisation for everything, and exchange binds and
replies. -/
def Sample.oneFragment : List Action :=
  [.input .alfie [] [] .established, .input .betty [] [] .established,
    .input .alfie [] [] (.submitAuthorisation (readAuthorisation .any [] none)),
    .input .betty [] [] (.submitAuthorisation (readAuthorisation .any [] none)),
    .deliver .alfie [0], .deliver .betty [0], .deliver .alfie [0], .deliver .betty [0]]

def Sample.scalars : Role → @PsiScalar countingScheme
  | .alfie => (1 : Nat)
  | .betty => (2 : Nat)

theorem acts_exactly_once_one_fragment :
    ∃ s, Transition.Reachable PaiExchange.step (fun _ _ => True) (start Sample.scalars) s ∧
      s.Quiet ∧ ∀ p, (0, 0) ∈ (s.finder p).acted ∧ (s.finder p).acted.count (0, 0) ≤ 1 := by
  have hrun : ((Transition.run PaiExchange.step (start Sample.scalars) Sample.oneFragment).map
      fun s => (s.received .alfie, s.received .betty, (s.sent .alfie).length,
        (s.sent .betty).length, (s.finder .alfie).fragments, (s.finder .betty).fragments)) =
      some (2, 2, 2, 2, PaiFinder.fragmentsOf (readAuthorisation .any [] none),
        PaiFinder.fragmentsOf (readAuthorisation .any [] none)) := by
    rfl
  obtain ⟨s, hs, heq⟩ := Option.map_eq_some_iff.mp hrun
  simp only [Prod.mk.injEq] at heq
  obtain ⟨hra, hrb, hsa, hsb, hfa, hfb⟩ := heq
  have hreach : Transition.Reachable PaiExchange.step (fun _ _ => True) _ s :=
    .of_run hs (by decide)
  have hquiet : s.Quiet := Role.forall_of .alfie (hra.trans hsb.symm) (hrb.trans hsa.symm)
  have hmeet : ∀ p, s.MeetAt p 0 0 := by
    refine Role.forall_of .alfie ?_ ?_
    · exact ⟨_, _, by rw [hfa]; rfl, by rw [Role.other, hfb]; rfl, by decide⟩
    · exact ⟨_, _, by rw [Role.other, hfb]; rfl, by rw [Role.other, Role.other, hfa]; rfl, by decide⟩
  refine ⟨s, hreach, hquiet, fun p => ?_⟩
  obtain ⟨honce, -, hall⟩ := acts_exactly_once countingScheme_lawful hreach p
  exact ⟨hall hquiet 0 0 (hmeet p), honce 0 0⟩

end Samples

end PaiExchange

end IrohWillow
