import IrohWillow.Session.EmptyInterests

/-!
# What the client of an intent is told

`IntentHandle::complete` waits for the events of an intent until their stream ends
(`session/intents.rs`), and the end of `run_session` (`session/run.rs`) drains the
dispatcher and sends an `Abort` to the intents that are left. `complete_answers` follows one
intent through a whole session: its client hears `Complete` once the intent is done, hears
the error if the session ends before with one, and only if we cancelled the session less
than that. A handle takes its events at once, so that each event is handled as a whole.
-/

namespace IrohWillow.Intents

open Fallible

/-! ## The handle -/

/-- `Completion`. -/
inductive Completion where
  | complete
  | partially
  | nothing
  deriving DecidableEq, Repr

/-- The error of an `Abort`: `SessionClosedByPeer`, an error of the dispatcher, or another
one. -/
inductive AbortError where
  | sessionClosedByPeer
  | run (error : RunError)
  | error (error : Error)
  deriving DecidableEq, Repr

namespace IntentHandle

/-- The loop of `IntentHandle::complete` with its two flags. The stream of events may end
with an `Abort`. -/
def loop (abort : Option AbortError) :
    Bool → Bool → List EventKind → Except AbortError Completion
  | complete, partially, [] =>
      match abort with
      | some error => .error error
      | none =>
          if complete then .ok .complete
          else if partially then .ok .partially
          else .ok .nothing
  | complete, partially, event :: events =>
      match event with
      | .reconciledAll => loop abort true partially events
      | .reconciled _ _ => loop abort complete true events
      | .abort error => .error (.error error)
      | .capabilityIntersection _ _ => loop abort complete partially events
      | .interestIntersection _ _ => loop abort complete partially events

/-- `IntentHandle::complete`. -/
def complete (events : List EventKind) (abort : Option AbortError) :
    Except AbortError Completion :=
  loop abort false false events

variable {abort : Option AbortError} {events : List EventKind}

/-- An `Abort` at the end of the stream is the answer. -/
theorem loop_of_abort {error : AbortError} (h : ∀ err, .abort err ∉ events)
    (c p : Bool) : loop (some error) c p events = .error error := by
  induction events generalizing c p with
  | nil => rfl
  | cons event rest ih =>
      have hrest : ∀ err, .abort err ∉ rest := fun err hmem => h err (List.mem_cons_of_mem _ hmem)
      cases event with
      | capabilityIntersection ns area => exact ih hrest c p
      | interestIntersection ns area => exact ih hrest c p
      | reconciled ns area => exact ih hrest c true
      | reconciledAll => exact ih hrest true p
      | abort err => exact absurd List.mem_cons_self (h err)

/-- Without an `Abort` the answer is `Complete` exactly after a `ReconciledAll`. -/
theorem loop_eq_complete_iff (h : ∀ err, .abort err ∉ events) (c p : Bool) :
    loop none c p events = .ok .complete ↔ c = true ∨ .reconciledAll ∈ events := by
  induction events generalizing c p with
  | nil => cases c <;> cases p <;> simp [loop]
  | cons event rest ih =>
      have hrest : ∀ err, .abort err ∉ rest := fun err hmem => h err (List.mem_cons_of_mem _ hmem)
      cases event with
      | capabilityIntersection ns area => simpa [loop] using ih hrest c p
      | interestIntersection ns area => simpa [loop] using ih hrest c p
      | reconciled ns area => simpa [loop] using ih hrest c true
      | reconciledAll => simpa [loop] using ih hrest true p
      | abort err => exact absurd List.mem_cons_self (h err)

theorem complete_of_abort {error : AbortError} (h : ∀ err, .abort err ∉ events) :
    complete events (some error) = .error error := loop_of_abort h false false

theorem complete_eq_complete_iff (h : ∀ err, .abort err ∉ events) :
    complete events none = .ok .complete ↔ .reconciledAll ∈ events := by
  rw [complete, loop_eq_complete_iff h]
  simp

end IntentHandle

/-! ## Events that reach a handle -/

section Sending

/-- The intent has a handle, to which no `Abort` was sent, and `K` holds of its info. -/
structure Listens (K : IntentInfo → Prop) (d : Delivery) : Prop where
  info : K d.info
  hasEventTx : d.info.hasEventTx = true
  unaborted : ∀ err, .abort err ∉ d.sent

variable {K : IntentInfo → Prop} {event : EventKind}

/-- What is sent arrives. -/
theorem send_listens (hevent : ∀ err, event ≠ .abort err) :
    Spec (Listens K) (send event) (fun _ d => Listens K d ∧ event ∈ d.sent)
      fun _ _ => True := by
  intro left d hd
  unfold send
  rw [if_pos hd.hasEventTx]
  refine Spec.operation (P := Listens K) (Q := fun _ d => Listens K d ∧ event ∈ d.sent)
    (fun d hd => ⟨⟨hd.info, hd.hasEventTx, fun err hmem => ?_⟩, by simp⟩) (fun _ _ => trivial)
    left d hd
  rcases List.mem_append.mp hmem with hmem | hmem
  · exact hd.unaborted err hmem
  · exact hevent err (List.mem_singleton.mp hmem).symm

/-- An event, and `ReconciledAll` after it if no interest is left. -/
theorem sendBoth_listens (hevent : ∀ err, event ≠ .abort err) (b : Bool) :
    Spec (Listens K)
      (do
        send event
        let isEmpty ← noInterests
        when (b && isEmpty) (send .reconciledAll))
      (fun _ d => Listens K d ∧
        (b = true → d.info.interests.isEmpty = true → .reconciledAll ∈ d.sent))
      fun _ _ => True := by
  refine Spec.bind (Q := fun _ => Listens K) ?_ fun _ => ?_
  · exact (send_listens hevent).weaken (fun d hd => hd) (fun _ d hd => hd.1) fun _ _ h => h
  refine Spec.bind (Q := fun isEmpty d => Listens K d ∧ isEmpty = d.info.interests.isEmpty)
    (Spec.access fun d hd => ⟨hd, rfl⟩) fun isEmpty => ?_
  refine Spec.when (fun hboth => ?_) fun hskip d hd => ⟨hd.1, fun hb hempty => ?_⟩
  · exact (send_listens (by simp)).weaken (fun d hd => hd.1) (fun _ d hd => ⟨hd.1, fun _ _ => hd.2⟩)
      fun _ _ h => h
  · rw [hb, Bool.true_and, hd.2, hempty] at hskip
    cases hskip

end Sending

section Events

variable [AreaIntersection]

omit [AreaIntersection] in
/-- An intent that asks for something waits for it, or has been told that it has all. -/
def Owes (asks : Prop) (d : Delivery) : Prop :=
  asks → d.info.interests.isEmpty = true → .reconciledAll ∈ d.sent

/-- An area that does not match leaves the intent as it is. -/
theorem completeAreaIfMatches_of_not {info : IntentInfo} {ns : NamespaceId} {area : Area}
    (h : (info.completeAreaIfMatches ns area).1 = false) :
    (info.completeAreaIfMatches ns area).2 = info := by
  unfold IntentInfo.completeAreaIfMatches at h ⊢
  split
  · rfl
  · rename_i aois hlook
    rw [hlook] at h
    by_cases hoverlaps : IntentInfo.overlaps aois area = true
    · simp only [if_pos hoverlaps] at h
      split at h <;> cases h
    · rw [if_neg hoverlaps]

/-- **An area that is reconciled.** -/
theorem onReconciled_listens (asks : Prop) (ns : NamespaceId) (area : AreaOfInterest) :
    Spec (fun d => Listens (fun _ => True) d ∧ Owes asks d) (onReconciled ns area)
      (fun _ d => Listens (fun _ => True) d ∧ Owes asks d) fun _ _ => True := by
  refine Spec.bind
    (Q := fun isMatch d => Listens (fun _ => True) d ∧ (isMatch = false → Owes asks d))
    (Spec.access fun d hd => ⟨⟨trivial, ?_, hd.1.unaborted⟩, fun hnot => ?_⟩) fun isMatch => ?_
  · rw [completeAreaIfMatches_hasEventTx]
    exact hd.1.hasEventTx
  · show asks → (d.info.completeAreaIfMatches ns area.area).2.interests.isEmpty = true → _
    rw [completeAreaIfMatches_of_not hnot]
    exact hd.2
  · refine Spec.when (fun _ => ?_) fun hskip d hd => ⟨hd.1, hd.2 hskip⟩
    exact (sendBoth_listens (by simp) true).weaken (fun d hd => hd.1)
      (fun _ d hd => ⟨hd.1, fun _ => hd.2 rfl⟩) fun _ _ h => h

theorem catchUp_listens (asks : Prop) (order : List (NamespaceId × AreaOfInterest)) :
    Spec (fun d => Listens (fun _ => True) d ∧ Owes asks d) (catchUp order)
      (fun _ d => Listens (fun _ => True) d ∧ Owes asks d) fun _ _ => True := by
  induction order with
  | nil => exact Spec.pure fun d hd => hd
  | cons e rest ih => exact (onReconciled_listens asks e.1 e.2).bind fun _ => ih

/-- **An event of the session** completes an intent only by telling it. -/
theorem handleEvent_listens {event : EventKind} (hevent : ∀ err, event ≠ .abort err) :
    Spec (Listens fun info => info.isComplete = false) (handleEvent event)
      (fun b d => Listens (fun _ => True) d ∧ b = d.info.isComplete ∧
        (b = true → .reconciledAll ∈ d.sent)) fun _ _ => True := by
  -- only a reconciled area takes interests off
  have hmatches : Spec (Listens fun info => info.isComplete = false) (matchesEvent event)
      (fun isMatch => Listens fun info =>
        isMatch = false ∨ event.isReconciled = false → info.isComplete = false)
      fun _ _ => True := by
    cases event with
    | capabilityIntersection ns area =>
        exact Spec.access fun d hd => ⟨fun _ => hd.info, hd.hasEventTx, hd.unaborted⟩
    | interestIntersection ns area =>
        exact Spec.access fun d hd => ⟨fun _ => hd.info, hd.hasEventTx, hd.unaborted⟩
    | reconciled ns area =>
        refine Spec.access fun d hd => ⟨fun hnot => ?_, ?_, hd.unaborted⟩
        · rcases hnot with hnot | hnot
          · rw [completeAreaIfMatches_of_not hnot]
            exact hd.info
          · cases hnot
        · rw [completeAreaIfMatches_hasEventTx]
          exact hd.hasEventTx
    | reconciledAll => exact Spec.pure fun d hd => ⟨fun _ => hd.info, hd.hasEventTx, hd.unaborted⟩
    | abort err => exact absurd rfl (hevent err)
  refine hmatches.bind fun isMatch => ?_
  refine Spec.bind (Q := fun _ d => Listens (fun _ => True) d ∧
    (d.info.isComplete = true → .reconciledAll ∈ d.sent)) ?_ fun _ => ?_
  · refine Spec.when (fun hmatch => ?_) fun hskip d hd => ⟨⟨trivial, hd.hasEventTx, hd.unaborted⟩,
      fun hcomplete => ?_⟩
    · refine (sendBoth_listens hevent event.isReconciled).weaken (fun d hd => hd)
        (fun _ d hd => ⟨⟨trivial, hd.1.hasEventTx, hd.1.unaborted⟩, fun hcomplete => ?_⟩)
        fun _ _ h => h
      cases hreconciled : event.isReconciled with
      | true => exact hd.2 hreconciled (Bool.and_eq_true_iff.mp hcomplete).1
      | false =>
          rw [hd.1.info (Or.inr hreconciled)] at hcomplete
          cases hcomplete
    · rw [hd.info (Or.inl hskip)] at hcomplete
      cases hcomplete
  · exact Spec.access fun d hd => ⟨hd.1, rfl, hd.2⟩

end Events

/-! ## The end of a session -/

/-- How `run_session` ends: with an error of a loop or of an `Abort` update, because we
cancelled it, or because the peer closed it. -/
inductive Ending where
  | failed (error : AbortError)
  | weCancelled
  | closedByPeer
  deriving DecidableEq, Repr

/-- The error that the intents which are still active are aborted with. -/
def Ending.abort : Ending → Option AbortError
  | .failed error => some error
  | .weCancelled => none
  | .closedByPeer => some .sessionClosedByPeer

namespace IntentDispatcher

section Session

variable [AreaIntersection]

/-- `IntentDispatcher::drain_all` handles the events that are left in the inbox. -/
def drainAll (s : IntentDispatcher) (inbox : List EventKind) : IntentDispatcher :=
  inbox.foldl emitEventInner s

omit [AreaIntersection] in
/-- The intent is among the `active_incomplete` ones of `RemainingIntents`. -/
def activeIncomplete (s : IntentDispatcher) (id : IntentId) : Bool :=
  match s.intents id with
  | some info => !info.isComplete && info.hasEventTx
  | none => false

omit [AreaIntersection] in
/-- What `IntentHandle::complete` returns for an intent when the session has ended. -/
def answer (s : IntentDispatcher) (ending : Ending) (id : IntentId) :
    Except AbortError Completion :=
  IntentHandle.complete (eventsOf id s.log) (if s.activeIncomplete id then ending.abort else none)

omit [AreaIntersection] in
/-- What may happen while the client of an intent waits for `complete`: the intent comes
with a handle, which is neither dropped nor closed. The session reports no `Abort`. -/
def Held (id : IntentId) (s : IntentDispatcher) : Action → Prop
  | .submitIntent _ intent _ => s.nextIntentId = id → intent.hasChannels = true
  | .emitEvent event => ∀ err, event ≠ .abort err
  | .updateIntent id' _ update => id' = id → update ≠ .close
  | .updatesClosed _ => True
  | .dropReceiver id' _ => id' ≠ id
  | .closeInbox => True

/-! ### What an intent asks for -/

section Asked

omit [AreaIntersection]

variable {s : IntentDispatcher} {l l' : List Effect} {id id' : IntentId} {ns : NamespaceId}
  {x : AreaOfInterest}

/-- Only its own submissions add to what an intent asks for. -/
theorem asked_append_iff (h : ∀ interests, .submitted id interests ∉ l') :
    Asked (l ++ l') id ns x ↔ Asked l id ns x := by
  constructor
  · rintro ⟨interests, hmem, hx⟩
    rcases List.mem_append.mp hmem with hmem | hmem
    · exact ⟨interests, hmem, hx⟩
    · exact absurd hmem (h interests)
  · rintro ⟨interests, hmem, hx⟩
    exact ⟨interests, List.mem_append_left _ hmem, hx⟩

theorem asked_yieldIfDropped : Asked s.yieldIfDropped.log id ns x ↔ Asked s.log id ns x := by
  unfold yieldIfDropped
  split
  · exact asked_append_iff (by simp)
  · rfl

theorem asked_cancelIntent : Asked (s.cancelIntent id').log id ns x ↔ Asked s.log id ns x := by
  unfold cancelIntent
  rw [asked_yieldIfDropped]
  exact asked_append_iff (by simp)

end Asked

theorem asked_emitEventInner {s : IntentDispatcher} {event : EventKind} {id : IntentId}
    {ns : NamespaceId} {x : AreaOfInterest} :
    Asked (s.emitEventInner event).log id ns x ↔ Asked s.log id ns x := by
  have hreport : ∀ interests, .submitted id interests ∉ reported event := by
    cases event <;> simp [reported]
  refine (asked_append_iff fun interests hmem => ?_).trans (asked_append_iff hreport)
  obtain ⟨id', info, -, he⟩ := mem_effects hmem
  rcases List.mem_append.mp he with he | he
  · obtain ⟨event', -, heq⟩ := List.mem_map.mp he
    cases heq
  · rcases ended_eq_some (Option.mem_toList.mp he) with heq | heq
    · cases heq
    · cases heq

/-! ### One intent in a session -/

section Client

variable {s s' : IntentDispatcher} {id : IntentId}

omit [AreaIntersection] in
/-- An intent whose client waits: while it is active it is not complete, and once it is gone
and has asked for something, it was told `ReconciledAll`. -/
structure Client (id : IntentId) (s : IntentDispatcher) : Prop where
  receiver : s.receivers id = none
  active : ∀ info, s.intents id = some info →
    info.hasEventTx = true ∧ info.isComplete = false
  told : s.intents id = none → (∃ ns x, Asked s.log id ns x) →
    .reconciledAll ∈ eventsOf id s.log
  unaborted : ∀ err, .abort err ∉ eventsOf id s.log

omit [AreaIntersection] in
theorem Client.start : Client id {} where
  receiver := rfl
  active := by rintro info ⟨⟩
  told := by
    rintro - ⟨ns, x, interests, hmem, -⟩
    cases hmem
  unaborted := by rintro err ⟨⟩

omit [AreaIntersection] in
/-- What does not concern the intent. -/
theorem Client.congr (h : Client id s) (hintents : s'.intents id = s.intents id)
    (hreceiver : s'.receivers id = s.receivers id)
    (hevents : eventsOf id s'.log = eventsOf id s.log)
    (hasked : ∀ ns x, Asked s'.log id ns x → Asked s.log id ns x) : Client id s' where
  receiver := hreceiver.trans h.receiver
  active info hinfo := h.active info (hintents ▸ hinfo)
  told hnone hsome := by
    obtain ⟨ns, x, hx⟩ := hsome
    rw [hevents]
    exact h.told (hintents ▸ hnone) ⟨ns, x, hasked ns x hx⟩
  unaborted err := hevents ▸ h.unaborted err

omit [AreaIntersection] in
theorem Client.yieldIfDropped (h : Client id s) : Client id s.yieldIfDropped :=
  h.congr (by simp) (by simp) (by simp) fun _ _ => asked_yieldIfDropped.mp

/-- **An event of the session.** -/
theorem Client.emitEventInner (h : Client id s) (hcons : Consistent s) {event : EventKind}
    (hevent : ∀ err, event ≠ .abort err) : Client id (s.emitEventInner event) := by
  have hevents : eventsOf id (s.emitEventInner event).log = _ := eventsOf_emitEventInner event
  cases hinfo : s.intents id with
  | none =>
      refine h.congr ?_ ?_ ?_ fun ns x => asked_emitEventInner.mp
      · simp [IntentDispatcher.emitEventInner, hinfo]
      · simp [IntentDispatcher.emitEventInner, hinfo]
      · rw [hevents, hinfo]
        simp
  | some info =>
      obtain ⟨hchannel, hincomplete⟩ := h.active info hinfo
      -- its receiver takes everything, so that handling the event succeeds
      obtain ⟨n, b, d, hcosts⟩ := handleEvent_costs event { info := info }
      have hhandle : s.handle event id info =
          { ended := if b then some (.completed id) else none, left := none, delivery := d } := by
        unfold handle
        rw [h.receiver, hcosts.always]
      obtain ⟨hlistens, hb, htold⟩ := (handleEvent_listens hevent none { info := info }
        ⟨hincomplete, hchannel, by simp⟩).1 b d (by rw [hcosts.always]) (by rw [hcosts.always])
      rw [if_pos (hcons.lt_nextIntentId hinfo), hinfo, Option.map_some, hhandle,
        Option.getD_some] at hevents
      have hintents : (s.emitEventInner event).intents id = if b then none else some d.info := by
        simp only [IntentDispatcher.emitEventInner, hinfo, Option.map_some, Option.bind_some,
          hhandle]
        cases b <;> rfl
      refine ⟨emitEventInner_receivers h.receiver event, fun info' hinfo' => ?_, fun hnone _ => ?_,
        fun err hmem => ?_⟩
      · rw [hintents] at hinfo'
        cases hb' : b with
        | true =>
            rw [hb'] at hinfo'
            cases hinfo'
        | false =>
            rw [hb'] at hinfo'
            obtain rfl := Option.some.inj hinfo'
            exact ⟨hlistens.hasEventTx, hb.symm.trans hb'⟩
      · rw [hevents]
        refine List.mem_append_right _ (htold ?_)
        by_contra hnot
        rw [hintents, if_neg hnot] at hnone
        cases hnone
      · rw [hevents] at hmem
        rcases List.mem_append.mp hmem with hmem | hmem
        · exact h.unaborted err hmem
        · exact hlistens.unaborted err hmem

omit [AreaIntersection] in
/-- What a submission makes of the intent that is submitted. -/
theorem Client.of_submits (h : Client id s) {left : Option Nat} {d : Delivery} {hasChannels : Bool}
    (hid : id = s.nextIntentId) (hfresh : s.intents id = none)
    (hsub : Submits s s' left d hasChannels) (hleft : left = none)
    (hlistens : Listens (fun _ => True) d)
    (howes : Owes (∃ ns x, Asked s'.log id ns x) d) : Client id s' := by
  have hevents := hsub.events id
  rw [if_pos hid] at hevents
  refine ⟨?_, fun info hinfo => ?_, fun hnone hsome => ?_, fun err hmem => ?_⟩
  · rw [hsub.receivers, hid, Function.update_self]
    exact hleft
  · rw [hsub.intents] at hinfo
    split at hinfo
    · rw [hfresh] at hinfo
      cases hinfo
    · rename_i hcomplete
      rw [hid, Function.update_self] at hinfo
      obtain rfl := Option.some.inj hinfo
      exact ⟨hlistens.hasEventTx, Bool.eq_false_iff.mpr hcomplete⟩
  · rw [hevents]
    refine List.mem_append_right _ (howes hsome ?_)
    rw [hsub.intents] at hnone
    split at hnone
    · rename_i hcomplete
      exact (Bool.and_eq_true_iff.mp hcomplete).1
    · rw [hid, Function.update_self] at hnone
      cases hnone
  · rw [hevents] at hmem
    rcases List.mem_append.mp hmem with hmem | hmem
    · exact h.unaborted err hmem
    · exact hlistens.unaborted err hmem

omit [AreaIntersection] in
/-- What is submitted for a new intent are the interests it comes with. -/
theorem submitted_of_submits (hcons : Consistent s) (hid : id = s.nextIntentId)
    {interests interests' : InterestMap} {l : List Effect} {e : Effect} {events : List EventKind}
    (hlog : l = s.log ++ .submitted s.nextIntentId interests ::
      (events.map (.sent s.nextIntentId) ++ [e]))
    (he : ∀ id interests, e ≠ .submitted id interests) (hmem : .submitted id interests' ∈ l) :
    interests' = interests := by
  rw [hlog] at hmem
  rcases List.mem_append.mp hmem with hmem | hmem
  · exact absurd (hcons.asked id interests' hmem) (hid ▸ Nat.lt_irrefl _)
  · rcases List.mem_cons.mp hmem with heq | hmem
    · exact (Effect.submitted.inj heq).2
    · rcases List.mem_append.mp hmem with hmem | hmem
      · simp at hmem
      · exact absurd (List.mem_singleton.mp hmem).symm (he id interests')

/-- Nobody else's submission adds to what the intent asks for. -/
theorem asked_of_submitIntent {auth : Auth} {intent : Intent}
    {order : List (NamespaceId × AreaOfInterest)} {interests : InterestMap} {ns : NamespaceId}
    {x : AreaOfInterest} (hresolve : auth.resolveInterests intent.interests = some interests)
    (hne : id ≠ s.nextIntentId) (hx : Asked (s.submitIntent auth intent order).log id ns x) :
    Asked s.log id ns x := by
  cases submission_cases s order hresolve with
  | abandoned _ _ _ _ hlog =>
      rw [hlog] at hx
      exact (asked_append_iff (by simp [hne])).mp hx
  | told _ _ _ hlog =>
      rw [hlog] at hx
      refine (asked_append_iff fun interests' hmem => ?_).mp hx
      rcases List.mem_cons.mp hmem with heq | hmem
      · exact hne (Effect.submitted.inj heq).1
      · rcases List.mem_append.mp hmem with hmem | hmem
        · simp at hmem
        · split at hmem <;> simp at hmem

/-- **A submission.** -/
theorem Client.submitIntent (h : Client id s) (hcons : Consistent s) {auth : Auth}
    {intent : Intent} {order : List (NamespaceId × AreaOfInterest)}
    (hheld : s.nextIntentId = id → intent.hasChannels = true) :
    Client id (s.submitIntent auth intent order) := by
  cases hresolve : auth.resolveInterests intent.interests with
  | none =>
      have hfails : s.submitIntent auth intent order = { s with result := some (.error .auth) } := by
        simp only [IntentDispatcher.submitIntent, hresolve]
      rw [hfails]
      exact h.congr rfl rfl rfl fun _ _ hx => hx
  | some interests =>
      cases submission_cases s order hresolve with
      | abandoned hdropped hintents hreceivers hresult hlog =>
          have hne : id ≠ s.nextIntentId := by
            rintro rfl
            simp only [Abandoned, hresolve, h.receiver] at hdropped
          refine h.congr (by rw [hintents]) ?_ ?_ fun ns x => asked_of_submitIntent hresolve hne
          · rw [hreceivers, Function.update_of_ne hne]
          · rw [hlog, eventsOf_append]
            simp [eventsOf, eventOf, Ne.symm hne]
      | @told left d hkept hrun hsub hlog =>
          by_cases hid : id = s.nextIntentId
          · have hreceiver : s.receivers s.nextIntentId = none := hid ▸ h.receiver
            rw [hreceiver] at hrun
            obtain ⟨d', hcosts⟩ := catchUp_costs order { info := newInfo intent interests }
            obtain ⟨-, hrest⟩ := Prod.mk.inj (hcosts.always.symm.trans hrun)
            obtain ⟨rfl, rfl⟩ := Prod.mk.inj hrest
            have hstart : Owes (∃ ns x, Asked (s.submitIntent auth intent order).log id ns x)
                { info := newInfo intent interests } := by
              rintro ⟨ns, x, interests', hmem, hx⟩ hempty
              obtain rfl := submitted_of_submits hcons hid hlog (by split <;> simp) hmem
              exact absurd (NamespaceInterests.has_merge.mpr (Or.inr hx))
                (NamespaceInterests.not_has_of_isEmpty hempty)
            obtain ⟨hlistens, howes⟩ := (catchUp_listens _ order none _
              ⟨⟨trivial, hheld hid.symm, by simp⟩, hstart⟩).1 () d' (by rw [hcosts.always])
                (by rw [hcosts.always])
            exact h.of_submits hid (hcons.fresh id hid.ge) hsub rfl hlistens howes
          · refine h.congr (hsub.intents_ne hid) ?_ ?_ fun ns x => asked_of_submitIntent hresolve hid
            · rw [hsub.receivers, Function.update_of_ne hid]
            · rw [hsub.events, if_neg hid, List.append_nil]

omit [AreaIntersection] in
/-- The intent itself asks for more. More interests do not complete an intent. -/
theorem Client.addInterests (h : Client id s) {info : IntentInfo}
    (hinfo : s.intents id = some info) (added : InterestMap) :
    Client id { s with
      intents := Function.update s.intents id (some (info.mergeInterests added))
      log := s.log ++ [.submitted id added, .output (.submitInterests added)] } := by
  have hevents : eventsOf id
      (s.log ++ [.submitted id added, .output (.submitInterests added)]) = eventsOf id s.log := by
    simp [eventsOf, eventOf]
  obtain ⟨hchannel, hincomplete⟩ := h.active info hinfo
  refine ⟨h.receiver, fun info' hinfo' => ?_, fun hnone => ?_, fun err => ?_⟩
  · have hnew : Function.update s.intents id (some (info.mergeInterests added)) id =
        some info' := hinfo'
    rw [Function.update_self] at hnew
    obtain rfl := Option.some.inj hnew
    refine ⟨hchannel, Bool.eq_false_iff.mpr fun hcomplete => ?_⟩
    obtain ⟨hempty, hmode⟩ := Bool.and_eq_true_iff.mp hcomplete
    have hcontra : info.isComplete = true :=
      Bool.and_eq_true_iff.mpr ⟨NamespaceInterests.isEmpty_of_merge hempty, hmode⟩
    rw [hincomplete] at hcontra
    cases hcontra
  · have hnew : Function.update s.intents id (some (info.mergeInterests added)) id = none := hnone
    rw [Function.update_self] at hnew
    cases hnew
  · rw [hevents]
    exact h.unaborted err

omit [AreaIntersection] in
/-- **An update.** -/
theorem Client.updateIntent (h : Client id s) {id' : IntentId} {auth : Auth}
    {update : IntentUpdate} (hheld : id' = id → update ≠ .close) :
    Client id (s.updateIntent id' auth update) := by
  have hchanges := changesOnly_updateIntent s id' auth update
  cases update with
  | close =>
      have hne : id ≠ id' := fun heq => hheld heq.symm rfl
      exact h.congr (hchanges.intents id hne) (hchanges.receivers id hne)
        (hchanges.events id hne) fun _ _ => asked_cancelIntent.mp
  | addInterests interests =>
      cases hresolve : auth.resolveInterests interests with
      | none =>
          rw [show s.updateIntent id' auth (.addInterests interests) = s by
            simp only [IntentDispatcher.updateIntent, hresolve]]
          exact h
      | some added =>
          cases hinfo : s.intents id' with
          | none =>
              rw [show s.updateIntent id' auth (.addInterests interests) = s by
                simp only [IntentDispatcher.updateIntent, hresolve, hinfo]]
              exact h
          | some info =>
              have hupdate : s.updateIntent id' auth (.addInterests interests) = { s with
                  intents := Function.update s.intents id' (some (info.mergeInterests added))
                  log := s.log ++
                    [.submitted id' added, .output (.submitInterests added)] } := by
                simp only [IntentDispatcher.updateIntent, hresolve, hinfo]
              by_cases hid : id = id'
              · subst hid
                rw [hupdate]
                exact h.addInterests hinfo added
              · refine h.congr (hchanges.intents id hid) (hchanges.receivers id hid)
                  (hchanges.events id hid) fun ns x => ?_
                rw [hupdate]
                exact (asked_append_iff (by simp [hid])).mp

omit [AreaIntersection] in
/-- While the receiver is there, an active intent outlives its updates. -/
theorem updatesClosed_of_open {info : IntentInfo} (hinfo : s.intents id = some info)
    (hopen : info.eventsClosed (s.receivers id) = false) :
    s.updatesClosed id =
      { s with intentUpdateRx := Function.update s.intentUpdateRx id false } := by
  simp [IntentDispatcher.updatesClosed, hinfo, hopen]

omit [AreaIntersection] in
/-- **The end of an intent's updates.** -/
theorem Client.updatesClosed (h : Client id s) (id' : IntentId) :
    Client id (s.updatesClosed id') := by
  have hchanges := changesOnly_updatesClosed s id'
  rcases updatesClosed_cases s id' with heq | heq
  · by_cases hid : id = id'
    · subst hid
      cases hinfo : s.intents id with
      | none =>
          rw [heq]
          refine h.congr ?_ ?_ eventsOf_cancelIntent fun _ _ => asked_cancelIntent.mp
          · simp [cancelIntent, cancelIntentInner, hinfo]
          · simp [cancelIntent, cancelIntentInner]
      | some info =>
          rw [updatesClosed_of_open hinfo (by simp [IntentInfo.eventsClosed, h.receiver])]
          exact h.congr rfl rfl rfl fun _ _ hx => hx
    · refine h.congr (hchanges.intents id hid) (hchanges.receivers id hid)
        (hchanges.events id hid) ?_
      rw [heq]
      exact fun _ _ => asked_cancelIntent.mp
  · rw [heq]
    exact h.congr rfl rfl rfl fun _ _ hx => hx

/-- **One step** of the dispatcher. -/
theorem Client.step (h : Client id s) (hcons : Consistent s) {a : Action} (hheld : Held id s a)
    (hstep : s.step a = some s') : Client id s' := by
  cases step_sound hstep with
  | submitIntent auth intent order hrunning horder => exact h.submitIntent hcons hheld
  | emitEvent event =>
      have hinner := h.emitEventInner hcons hheld
      unfold IntentDispatcher.emitEvent
      split
      · exact hinner.yieldIfDropped
      · exact hinner
  | updateIntent id' auth update hrunning hopen => exact h.updateIntent hheld
  | updatesClosed id' hrunning hopen => exact h.updatesClosed id'
  | dropReceiver id' left hthere =>
      exact h.congr rfl (Function.update_of_ne (Ne.symm hheld) _ _) rfl fun _ _ hx => hx
  | closeInbox hrunning => exact h.congr rfl rfl rfl fun _ _ hx => hx

/-- A whole session. -/
theorem Client.of_run {actions : List Action} (hrun : run actions = some s)
    (hheld : Transition.AllowedAlong IntentDispatcher.step (Held id) {} actions) :
    Client id s ∧ Consistent s :=
  (Transition.Reachable.of_run hrun hheld).invariant (P := fun s => Client id s ∧ Consistent s)
    ⟨Client.start, Consistent.start⟩ fun _ _ _ hs ha hstep =>
      ⟨hs.1.step hs.2 ha hstep, hs.2.step hstep⟩

theorem Client.drainAll (h : Client id s) (hcons : Consistent s) {inbox : List EventKind}
    (hinbox : ∀ err, .abort err ∉ inbox) :
    Client id (s.drainAll inbox) ∧ Consistent (s.drainAll inbox) := by
  induction inbox generalizing s with
  | nil => exact ⟨h, hcons⟩
  | cons event rest ih =>
      have hevent : ∀ err, event ≠ .abort err := by
        rintro err rfl
        exact hinbox err List.mem_cons_self
      refine ih (h.emitEventInner hcons hevent) (hcons.emitEventInner event) fun err hmem => ?_
      exact hinbox err (List.mem_cons_of_mem _ hmem)

end Client

/-! ### What `complete` returns -/

section Answer

variable {s : IntentDispatcher} {id : IntentId} {ending : Ending}

omit [AreaIntersection] in
/-- An intent that is done gets no `Abort`. -/
theorem Client.answer_done (h : Client id s) (hnone : s.intents id = none)
    (hasked : ∃ ns x, Asked s.log id ns x) : s.answer ending id = .ok .complete := by
  have hgone : s.activeIncomplete id = false := by
    unfold activeIncomplete
    rw [hnone]
  unfold answer
  rw [hgone]
  exact (IntentHandle.complete_eq_complete_iff h.unaborted).mpr (h.told hnone hasked)

omit [AreaIntersection] in
/-- An intent that is still active gets the `Abort`, if there is one. -/
theorem Client.answer_active (h : Client id s) {info : IntentInfo}
    (hinfo : s.intents id = some info) :
    s.answer ending id = IntentHandle.complete (eventsOf id s.log) ending.abort := by
  obtain ⟨hchannel, hincomplete⟩ := h.active info hinfo
  have hactive : s.activeIncomplete id = true := by
    unfold activeIncomplete
    rw [hinfo]
    simp [hchannel, hincomplete]
  unfold answer
  rw [hactive, if_pos rfl]

omit [AreaIntersection] in
/-- An answer that is no error comes from a stream without `Abort`. -/
theorem Client.reconciledAll_of_complete (h : Client id s)
    (hanswer : s.answer ending id = .ok .complete) : .reconciledAll ∈ eventsOf id s.log := by
  unfold answer at hanswer
  cases habort : (if s.activeIncomplete id then ending.abort else none) with
  | none =>
      rw [habort] at hanswer
      exact (IntentHandle.complete_eq_complete_iff h.unaborted).mp hanswer
  | some err =>
      rw [habort, IntentHandle.complete_of_abort h.unaborted] at hanswer
      cases hanswer

omit [AreaIntersection] in
/-- What was told is in the log, and was true when it was told. -/
theorem satisfied_of_mem_eventsOf (hcons : Consistent s)
    (hmem : .reconciledAll ∈ eventsOf id s.log) :
    ∃ p, p ++ [.sent id .reconciledAll] <+: s.log ∧ Satisfied p id := by
  obtain ⟨e, he, hevent⟩ := List.mem_filterMap.mp hmem
  have heq : e = .sent id .reconciledAll := by
    unfold eventOf at hevent
    split at hevent
    · split at hevent
      · rename_i hid
        rw [hid, Option.some.inj hevent]
      · cases hevent
    · cases hevent
  obtain ⟨p, q, hsplit⟩ := List.append_of_mem (heq ▸ he)
  have hprefix : p ++ [.sent id .reconciledAll] <+: s.log :=
    ⟨q, by rw [hsplit, List.append_assoc, List.singleton_append]⟩
  exact ⟨p, hprefix, hcons.sound p _ id hprefix rfl⟩

end Answer

/-- **What `complete` returns**, for a client that has asked for something and holds its
handle through a session, which handles the rest of its inbox and then ends. If the intent
is gone by then, the answer is `Complete`. If it is still active, the answer is the error
that the session ends with, if there is one. With the answer `Complete`, all that the intent
had asked for until some `ReconciledAll` was reported by then. `Partial` and `Nothing` are
answered only when we cancelled the session before the intent was done. -/
theorem complete_answers {actions : List Action} {s : IntentDispatcher} {id : IntentId}
    {inbox : List EventKind} (ending : Ending) (hrun : run actions = some s)
    (hheld : Transition.AllowedAlong step (Held id) {} actions)
    (hinbox : ∀ err, .abort err ∉ inbox)
    (hasked : ∃ ns x, Asked (s.drainAll inbox).log id ns x) :
    ((s.drainAll inbox).intents id = none →
      (s.drainAll inbox).answer ending id = .ok .complete) ∧
    (∀ info err, (s.drainAll inbox).intents id = some info → ending.abort = some err →
      (s.drainAll inbox).answer ending id = .error err) ∧
    ((s.drainAll inbox).answer ending id = .ok .complete →
      ∃ p, p ++ [.sent id .reconciledAll] <+: (s.drainAll inbox).log ∧ Satisfied p id) ∧
    (∀ completion, (s.drainAll inbox).answer ending id = .ok completion →
      completion ≠ .complete →
        ending = .weCancelled ∧ ((s.drainAll inbox).intents id).isSome = true) := by
  obtain ⟨hclient₀, hcons₀⟩ := Client.of_run hrun hheld
  obtain ⟨hclient, hcons⟩ := hclient₀.drainAll hcons₀ hinbox
  have hactive : ∀ info err, (s.drainAll inbox).intents id = some info →
      ending.abort = some err → (s.drainAll inbox).answer ending id = .error err := by
    intro info err hinfo habort
    rw [hclient.answer_active hinfo, habort]
    exact IntentHandle.complete_of_abort hclient.unaborted
  refine ⟨fun hnone => hclient.answer_done hnone hasked, hactive, fun hanswer => ?_,
    fun completion hanswer hless => ?_⟩
  · exact satisfied_of_mem_eventsOf hcons (hclient.reconciledAll_of_complete hanswer)
  · cases hinfo : (s.drainAll inbox).intents id with
    | none =>
        -- an intent that is gone is told `Complete`
        rw [hclient.answer_done hinfo hasked] at hanswer
        exact absurd (Except.ok.inj hanswer).symm hless
    | some info =>
        refine ⟨?_, rfl⟩
        cases ending with
        | weCancelled => rfl
        | failed err =>
            rw [hactive info err hinfo rfl] at hanswer
            cases hanswer
        | closedByPeer =>
            rw [hactive info _ hinfo rfl] at hanswer
            cases hanswer

end Session

section Samples

open IrohWillow.Sample

attribute [local instance] Sample.areaIntersection

/-- The report that everything is reconciled is still in the inbox when the peer closes the
session, and the client hears `Complete`. -/
theorem complete_answers_late : ∃ s,
    run [Sample.submit .reconcileOnce, .closeInbox] = some s ∧
      (s.drainAll [.reconciled namespaceId Sample.everything]).answer .closedByPeer 0 =
        .ok .complete := by
  have hrun : ((run [Sample.submit .reconcileOnce, .closeInbox]).map fun s =>
      (((s.drainAll [.reconciled namespaceId Sample.everything]).intents 0).isNone,
        decide (.submitted 0 [(Sample.readAuthorisation, [Sample.everything])] ∈
          (s.drainAll [.reconciled namespaceId Sample.everything]).log))) =
      some (true, true) := by
    decide
  obtain ⟨s, hs, heq⟩ := Option.map_eq_some_iff.mp hrun
  obtain ⟨hnone, hsubmitted⟩ := Prod.mk.inj heq
  have hheld : Transition.AllowedAlong step (Held 0) {}
      [Sample.submit .reconcileOnce, .closeInbox] := by
    refine ⟨fun _ => rfl, ?_⟩
    split
    · trivial
    · refine ⟨trivial, ?_⟩
      split <;> trivial
  have hasked : ∃ ns x,
      Asked (s.drainAll [.reconciled namespaceId Sample.everything]).log 0 ns x :=
    ⟨namespaceId, Sample.everything, _, of_decide_eq_true hsubmitted, _, List.mem_cons_self, rfl,
      List.mem_cons_self⟩
  exact ⟨s, hs, (complete_answers .closedByPeer hs hheld (by simp) hasked).1
    (Option.isNone_iff_eq_none.mp hnone)⟩

end Samples

end IntentDispatcher

end IrohWillow.Intents
