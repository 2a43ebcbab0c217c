import IrohWillow.Lib.Transition
import IrohWillow.Store.Traits

/-!
# Subscriptions to the events of a namespace

`EventStream` of `store/memory.rs`: a cursor into the event queue of a
namespace, moved on only when an event is delivered. Any number of streams read
the same queue, and events are inserted in between.

* `Feed` is the queue with all subscriptions that were started on it, each with
  what it has yielded;
* `Subscription.Exact` says that a subscription has yielded exactly the matching
  events from its start up to its cursor.
-/

namespace IrohWillow

open Transition

/-! ## The loop of a poll -/

namespace EventQueue

variable {α : Type} {filter : α → Bool} {l : List α} {i j : Nat} {event : α}

/-- The loop finds nothing when no event passes the filter. -/
theorem scan_eq_none_iff : scan filter i l = none ↔ ∀ e ∈ l, filter e = false := by
  induction l generalizing i with
  | nil => simp [scan]
  | cons e rest ih =>
      cases he : filter e with
      | true => simp [scan, he]
      | false => simp [scan, he, ih]

/-- The loop finds the first event that passes the filter. -/
theorem scan_eq_some (h : scan filter i l = some (j, event)) :
    ∃ skipped rest, l = skipped ++ event :: rest ∧ (∀ e ∈ skipped, filter e = false) ∧
      filter event = true ∧ j = i + skipped.length + 1 := by
  induction l generalizing i with
  | nil => cases h
  | cons e rest ih =>
      unfold scan at h
      split at h
      · rename_i he
        obtain ⟨rfl, rfl⟩ := Prod.mk.inj (Option.some.inj h)
        exact ⟨[], rest, rfl, by simp, he, rfl⟩
      · rename_i he
        obtain ⟨skipped, rest', rfl, hskipped, hevent, hj⟩ := ih h
        refine ⟨e :: skipped, rest', rfl, ?_, hevent, ?_⟩
        · intro x hx
          rcases List.mem_cons.mp hx with rfl | hx
          · simpa using he
          · exact hskipped x hx
        · rw [hj, List.length_cons]
          omega

end EventQueue

section Model

variable [Meadowcap]

/-- `StoreEvent::progress_id`. -/
def StoreEvent.progressId : StoreEvent → Nat
  | .ingested id _ _ => id
  | .pruned id _ _ => id

/-! ## Streams -/

/-- `EventStream`, without the pointer to the store. -/
structure EventStream where
  progressId : Nat
  namespaceId : NamespaceId
  area : Area
  params : SubscribeParams
  deriving DecidableEq

namespace EventStream

/-- The filter of the stream. -/
def wants (stream : EventStream) (event : StoreEvent) : Bool :=
  event.matches stream.namespaceId stream.area stream.params

/-- `EventStream::poll_next` by the task `waker`, on the queue of the stream's
namespace. -/
def pollNext (stream : EventStream) (queue : EventQueue StoreEvent) (waker : Waker) :
    Poll (Option StoreEvent) × EventStream × EventQueue StoreEvent :=
  match queue.pollNext stream.progressId stream.wants waker with
  | (.closed, queue) => (.ready none, stream, queue)
  | (.ready nextId event, queue) =>
      (.ready (some event), { stream with progressId := nextId }, queue)
  | (.pending, queue) => (.pending, stream, queue)

end EventStream

/-- `resume_subscription`. -/
def resumeSubscription (progressId : Nat) (namespaceId : NamespaceId) (area : Area)
    (params : SubscribeParams) : EventStream :=
  { progressId := progressId, namespaceId := namespaceId, area := area, params := params }

/-- `subscribe_area`. -/
def subscribeArea (queue : EventQueue StoreEvent) (namespaceId : NamespaceId) (area : Area)
    (params : SubscribeParams) : EventStream :=
  resumeSubscription queue.nextProgressId namespaceId area params

/-- An event before it gets its progress id, as `ingest_entry` passes it to
`EventQueue::insert`. -/
inductive NewEvent where
  | ingested (entry : AuthorisedEntry) (origin : EntryOrigin)
  | pruned (gone cause : AuthorisedEntry)
  deriving DecidableEq

/-- The event with its progress id. -/
def NewEvent.withId : NewEvent → Nat → StoreEvent
  | .ingested entry origin, id => .ingested id entry origin
  | .pruned gone cause, id => .pruned id gone cause

theorem NewEvent.progressId_withId (event : NewEvent) (id : Nat) :
    (event.withId id).progressId = id := by
  cases event <;> rfl

/-- A subscription: where it started, its stream, what it has yielded, and, if the
last poll returned `Pending` and its task was not woken since, the task and the
number of events at that poll. -/
structure Subscription where
  start : Nat
  stream : EventStream
  yielded : List StoreEvent := []
  waiting : Option (Waker × Nat) := none
  deriving DecidableEq

/-- The event queue of a namespace, with its subscriptions. -/
structure Feed where
  queue : EventQueue StoreEvent := {}
  subscriptions : List Subscription := []
  deriving DecidableEq

namespace Feed

/-- A step. -/
inductive Action where
  | insert (event : NewEvent)
  | subscribe (namespaceId : NamespaceId) (area : Area) (params : SubscribeParams)
  | resume (progressId : Nat) (namespaceId : NamespaceId) (area : Area) (params : SubscribeParams)
  | poll (index : Nat) (waker : Waker)
  deriving DecidableEq

/-- Every task that is registered is woken. -/
def wake (wakers : List Waker) (sub : Subscription) : Subscription :=
  match sub.waiting with
  | none => sub
  | some (waker, _) => if waker ∈ wakers then { sub with waiting := none } else sub

/-- A subscription after a poll. -/
def polled (sub : Subscription) (queue : EventQueue StoreEvent) (waker : Waker) :
    Subscription × EventQueue StoreEvent :=
  match sub.stream.pollNext queue waker with
  | (.ready (some event), stream, queue) =>
      ({ sub with stream := stream, yielded := sub.yielded ++ [event], waiting := none }, queue)
  | (.ready none, stream, queue) => ({ sub with stream := stream, waiting := none }, queue)
  | (.pending, stream, queue) =>
      ({ sub with stream := stream, waiting := some (waker, queue.events.length) }, queue)

/-- One step. -/
def step (s : Feed) : Action → Option Feed
  | .insert event =>
      some
        { queue := s.queue.insert event.withId
          subscriptions := s.subscriptions.map (wake s.queue.wakers) }
  | .subscribe namespaceId area params =>
      some { s with subscriptions := s.subscriptions ++
        [{ start := s.queue.nextProgressId
           stream := subscribeArea s.queue namespaceId area params }] }
  | .resume progressId namespaceId area params =>
      some { s with subscriptions := s.subscriptions ++
        [{ start := progressId
           stream := resumeSubscription progressId namespaceId area params }] }
  | .poll index waker =>
      match s.subscriptions[index]? with
      | none => none
      | some sub =>
          some
            { queue := (polled sub s.queue waker).2
              subscriptions := s.subscriptions.set index (polled sub s.queue waker).1 }

end Feed

/-! ## What a subscription has yielded -/

namespace Subscription

/-- The events from the start up to the cursor. -/
def window (sub : Subscription) (log : List StoreEvent) : List StoreEvent :=
  (log.drop sub.start).take (sub.stream.progressId - sub.start)

/-- The state of a subscription to a log. -/
structure Exact (log : List StoreEvent) (wakers : List Waker) (sub : Subscription) : Prop where
  start_le : sub.start ≤ sub.stream.progressId
  yielded : sub.yielded = (sub.window log).filter sub.stream.wants
  /-- The cursor is after the last event that was yielded. -/
  cursor : (sub.yielded = [] ∧ sub.stream.progressId = sub.start) ∨
    ∃ before event, sub.yielded = before ++ [event] ∧
      sub.stream.progressId = event.progressId + 1 ∧ sub.stream.progressId ≤ log.length
  waiting : ∀ waker count, sub.waiting = some (waker, count) →
    waker ∈ wakers ∧ log.length = count

variable {log : List StoreEvent} {wakers : List Waker} {sub : Subscription}

theorem exact_start (log : List StoreEvent) (wakers : List Waker) (progressId : Nat)
    (stream : EventStream) (h : stream.progressId = progressId) :
    Exact log wakers { start := progressId, stream := stream } where
  start_le := h.ge
  yielded := by simp [window, h]
  cursor := Or.inl ⟨rfl, h⟩
  waiting := by simp

/-- An inserted event is behind the cursor of every subscription. -/
theorem window_append (h : Exact log wakers sub) (event : StoreEvent) :
    sub.window (log ++ [event]) = sub.window log := by
  have hstart := h.start_le
  unfold window
  rcases h.cursor with ⟨-, hcursor⟩ | ⟨before, last, -, -, hle⟩
  · rw [hcursor, Nat.sub_self, List.take_zero, List.take_zero]
  · rw [List.drop_append_of_le_length (by omega), List.take_append_of_le_length]
    rw [List.length_drop]
    omega

/-- An event is inserted, and all registered tasks are woken. -/
theorem Exact.insert (h : Exact log wakers sub) (event : StoreEvent) :
    Exact (log ++ [event]) [] (Feed.wake wakers sub) := by
  have hwake : (Feed.wake wakers sub).waiting = none ∧
      (Feed.wake wakers sub).start = sub.start ∧ (Feed.wake wakers sub).stream = sub.stream ∧
      (Feed.wake wakers sub).yielded = sub.yielded := by
    unfold Feed.wake
    cases hw : sub.waiting with
    | none => exact ⟨hw, rfl, rfl, rfl⟩
    | some parked =>
        dsimp only
        rw [if_pos (h.waiting parked.1 parked.2 hw).1]
        exact ⟨rfl, rfl, rfl, rfl⟩
  obtain ⟨hwaiting, hstart, hstream, hyielded⟩ := hwake
  refine ⟨?_, ?_, ?_, ?_⟩
  · rw [hstart, hstream]
    exact h.start_le
  · have hwindow := window_append h event
    unfold window at hwindow ⊢
    rw [hyielded, hstart, hstream, hwindow]
    exact h.yielded
  · rw [hyielded, hstart, hstream]
    refine h.cursor.imp id ?_
    rintro ⟨before, last, hlast, hcursor, hle⟩
    refine ⟨before, last, hlast, hcursor, ?_⟩
    rw [List.length_append]
    omega
  · intro waker count hw
    rw [hwaiting] at hw
    cases hw

theorem Exact.mono (h : Exact log wakers sub) {wakers' : List Waker} (hle : wakers ⊆ wakers') :
    Exact log wakers' sub :=
  ⟨h.start_le, h.yielded, h.cursor, fun waker count hw =>
    ⟨hle (h.waiting waker count hw).1, (h.waiting waker count hw).2⟩⟩

/-- The next matching event is delivered, and the cursor moves behind it. -/
theorem Exact.deliver (h : Exact log wakers sub)
    (hids : ∀ (k : Nat) (event : StoreEvent), log[k]? = some event → event.progressId = k)
    {skipped rest : List StoreEvent} {event : StoreEvent}
    (hlog : log.drop sub.stream.progressId = skipped ++ event :: rest)
    (hskipped : ∀ e ∈ skipped, sub.stream.wants e = false)
    (hevent : sub.stream.wants event = true) {next : Nat}
    (hnext : next = sub.stream.progressId + skipped.length + 1) :
    Exact log wakers { sub with
      stream := { sub.stream with progressId := next }
      yielded := sub.yielded ++ [event]
      waiting := none } := by
  have hstart := h.start_le
  have hlength := congrArg List.length hlog
  rw [List.length_drop, List.length_append, List.length_cons] at hlength
  have hid : event.progressId = sub.stream.progressId + skipped.length := by
    apply hids
    rw [← List.getElem?_drop, hlog, List.getElem?_append_right (le_refl _), Nat.sub_self]
    rfl
  -- the new window is the old one, the events that were skipped, and the delivered one
  have hwindow : (log.drop sub.start).take (next - sub.start) =
      sub.window log ++ (skipped ++ [event]) := by
    have hsplit : log.drop sub.start =
        sub.window log ++ (skipped ++ [event]) ++ rest := by
      rw [List.append_assoc, List.append_assoc, List.singleton_append, ← hlog]
      unfold window
      conv_lhs => rw [← List.take_append_drop (sub.stream.progressId - sub.start)
        (log.drop sub.start)]
      rw [List.drop_drop, Nat.add_sub_cancel' hstart]
    have hlen : (sub.window log).length = sub.stream.progressId - sub.start := by
      unfold window
      rw [List.length_take, List.length_drop]
      omega
    rw [hsplit]
    apply List.take_left'
    simp only [List.length_append, hlen, List.length_singleton]
    omega
  refine ⟨?_, ?_, Or.inr ⟨sub.yielded, event, rfl, ?_, ?_⟩, by simp⟩
  · show sub.start ≤ next
    omega
  · show sub.yielded ++ [event] =
      ((log.drop sub.start).take (next - sub.start)).filter sub.stream.wants
    have hnone : skipped.filter sub.stream.wants = [] := by simpa using hskipped
    have hsingle : [event].filter sub.stream.wants = [event] := by simp [hevent]
    rw [hwindow, List.filter_append, List.filter_append, hnone, hsingle, ← h.yielded]
    rfl
  · show next = event.progressId + 1
    omega
  · show next ≤ log.length
    omega

end Subscription

/-! ## The invariant of the feed -/

namespace Feed

/-- The invariant of the feed. -/
structure Inv (s : Feed) : Prop where
  offset : s.queue.offset = 0
  ids : ∀ (k : Nat) (event : StoreEvent), s.queue.events[k]? = some event → event.progressId = k
  exact : ∀ sub ∈ s.subscriptions, sub.Exact s.queue.events s.queue.wakers

theorem inv_start : Inv {} := ⟨rfl, by simp, by simp⟩

variable {s s' : Feed}

theorem Inv.nextProgressId (h : Inv s) : s.queue.nextProgressId = s.queue.events.length := by
  rw [EventQueue.nextProgressId, h.offset, Nat.zero_add]

/-- What a poll of a subscription can do. -/
theorem Inv.pollNext (h : Inv s) (stream : EventStream) (waker : Waker) :
    ((∀ event ∈ s.queue.events.drop stream.progressId, stream.wants event = false) ∧
      stream.pollNext s.queue waker =
        (.pending, stream, { s.queue with wakers := s.queue.wakers ++ [waker] })) ∨
    ∃ skipped event rest,
      s.queue.events.drop stream.progressId = skipped ++ event :: rest ∧
      (∀ e ∈ skipped, stream.wants e = false) ∧ stream.wants event = true ∧
      stream.pollNext s.queue waker = (.ready (some event),
        { stream with progressId := stream.progressId + skipped.length + 1 }, s.queue) := by
  have hstart : ¬ stream.progressId < s.queue.offset := by
    rw [h.offset]
    exact Nat.not_lt_zero _
  have hindex : stream.progressId - s.queue.offset = stream.progressId := by
    rw [h.offset, Nat.sub_zero]
  unfold EventStream.pollNext EventQueue.pollNext
  rw [if_neg hstart, hindex]
  cases hscan : EventQueue.scan stream.wants stream.progressId
      (s.queue.events.drop stream.progressId) with
  | none => exact Or.inl ⟨EventQueue.scan_eq_none_iff.mp hscan, rfl⟩
  | some found =>
      obtain ⟨next, event⟩ := found
      obtain ⟨skipped, rest, hlog, hskipped, hevent, rfl⟩ := EventQueue.scan_eq_some hscan
      exact Or.inr ⟨skipped, event, rest, hlog, hskipped, hevent, rfl⟩

/-- A poll returns the next matching event, and waits only when there is
none. -/
theorem Inv.pollNext_result (h : Inv s) (stream : EventStream) (waker : Waker) :
    (stream.pollNext s.queue waker).1 =
      match (s.queue.events.drop stream.progressId).find? stream.wants with
      | some event => .ready (some event)
      | none => .pending := by
  rcases h.pollNext stream waker with
    ⟨hnone, hpoll⟩ | ⟨skipped, event, rest, hlog, hskipped, hevent, hpoll⟩
  · rw [hpoll, List.find?_eq_none.mpr (by simpa using hnone)]
  · have hfind : skipped.find? stream.wants = none :=
      List.find?_eq_none.mpr (by simpa using hskipped)
    rw [hpoll, hlog, List.find?_append, hfind, List.find?_cons_of_pos hevent]
    rfl

theorem Inv.poll (h : Inv s) {index : Nat} {waker : Waker}
    (hstep : s.step (.poll index waker) = some s') : Inv s' := by
  simp only [step] at hstep
  cases hsub : s.subscriptions[index]? with
  | none =>
      rw [hsub] at hstep
      cases hstep
  | some sub =>
      rw [hsub] at hstep
      obtain rfl := Option.some.inj hstep
      have hexact := h.exact sub (List.mem_of_getElem? hsub)
      rcases h.pollNext sub.stream waker with
        ⟨-, hpoll⟩ | ⟨skipped, event, rest, hlog, hskipped, hevent, hpoll⟩
      · have hpolled : polled sub s.queue waker =
            ({ sub with waiting := some (waker, s.queue.events.length) },
            { s.queue with wakers := s.queue.wakers ++ [waker] }) := by
          simp only [polled, hpoll]
        rw [hpolled]
        refine ⟨h.offset, h.ids, ?_⟩
        intro sub' hsub'
        rcases List.mem_or_eq_of_mem_set hsub' with hmem | rfl
        · exact (h.exact sub' hmem).mono (List.subset_append_left _ _)
        · refine ⟨hexact.start_le, hexact.yielded, hexact.cursor, ?_⟩
          intro waker' count hw
          obtain ⟨rfl, rfl⟩ := Prod.mk.inj (Option.some.inj hw)
          exact ⟨by simp, rfl⟩
      · have hpolled : polled sub s.queue waker = ({ sub with
            stream := { sub.stream with
              progressId := sub.stream.progressId + skipped.length + 1 }
            yielded := sub.yielded ++ [event]
            waiting := none }, s.queue) := by
          simp only [polled, hpoll]
        rw [hpolled]
        refine ⟨h.offset, h.ids, ?_⟩
        intro sub' hsub'
        rcases List.mem_or_eq_of_mem_set hsub' with hmem | rfl
        · exact h.exact sub' hmem
        · exact hexact.deliver h.ids hlog hskipped hevent rfl

theorem Inv.insert (h : Inv s) (event : NewEvent) :
    Inv
      { queue := s.queue.insert event.withId
        subscriptions := s.subscriptions.map (wake s.queue.wakers) } := by
  refine ⟨h.offset, ?_, ?_⟩
  · intro k e hk
    replace hk : (s.queue.events ++ [event.withId s.queue.nextProgressId])[k]? = some e := hk
    rcases Nat.lt_trichotomy k s.queue.events.length with hlt | rfl | hgt
    · rw [List.getElem?_append_left hlt] at hk
      exact h.ids k e hk
    · rw [List.getElem?_concat_length] at hk
      obtain rfl := Option.some.inj hk
      rw [event.progressId_withId, h.nextProgressId]
    · rw [List.getElem?_eq_none (by simp; omega)] at hk
      cases hk
  · intro sub hsub
    obtain ⟨old, hold, rfl⟩ := List.mem_map.mp hsub
    exact (h.exact old hold).insert _

theorem Inv.subscribe (h : Inv s) (progressId : Nat) (stream : EventStream)
    (hstream : stream.progressId = progressId) :
    Inv { s with subscriptions := s.subscriptions ++ [{ start := progressId, stream := stream }] } := by
  refine ⟨h.offset, h.ids, ?_⟩
  intro sub hsub
  rcases List.mem_append.mp hsub with hsub | hsub
  · exact h.exact sub hsub
  · obtain rfl := List.mem_singleton.mp hsub
    exact Subscription.exact_start _ _ progressId stream hstream

theorem Inv.step (h : Inv s) {a : Action} (hstep : s.step a = some s') : Inv s' := by
  cases a with
  | insert event =>
      obtain rfl := Option.some.inj hstep
      exact h.insert event
  | subscribe namespaceId area params =>
      obtain rfl := Option.some.inj hstep
      exact h.subscribe _ _ rfl
  | resume progressId namespaceId area params =>
      obtain rfl := Option.some.inj hstep
      exact h.subscribe _ _ rfl
  | poll index waker => exact h.poll hstep

/-! ## Resuming -/

variable {log : List StoreEvent} {wakers : List Waker} {sub sub' : Subscription}

/-- What a subscription yields after an event is what matches behind that event,
up to its cursor. -/
theorem yielded_after (h : sub.Exact log wakers)
    (hids : ∀ (k : Nat) (event : StoreEvent), log[k]? = some event → event.progressId = k)
    {before after : List StoreEvent} {event : StoreEvent}
    (hyielded : sub.yielded = before ++ event :: after) :
    ∃ window, window <+: log.drop (event.progressId + 1) ∧
      after = window.filter sub.stream.wants := by
  have hfilter := h.yielded.symm.trans hyielded
  obtain ⟨front, back, hwindow, -, hback⟩ := List.filter_eq_append_iff.mp hfilter
  obtain ⟨skipped, window, hsplit, -, -, hafter⟩ := List.filter_eq_cons_iff.mp hback
  obtain ⟨rest, hrest⟩ : sub.window log <+: log.drop sub.start := List.take_prefix _ _
  have hlog : log.drop sub.start = (front ++ skipped) ++ event :: (window ++ rest) := by
    rw [← hrest, hwindow, hsplit]
    simp
  have hid : event.progressId = sub.start + (front ++ skipped).length := by
    apply hids
    rw [← List.getElem?_drop, hlog, List.getElem?_append_right (le_refl _), Nat.sub_self]
    rfl
  refine ⟨window, ⟨rest, ?_⟩, hafter.symm⟩
  rw [hid, Nat.add_assoc, ← List.drop_drop, hlog, ← List.drop_drop, List.drop_left]
  rfl

/-- Two subscriptions with the same filter, of which one has yielded an event and
the other started behind it, yield the same from there on. -/
theorem same_continuation (h : sub.Exact log wakers) (h' : sub'.Exact log wakers)
    (hids : ∀ (k : Nat) (event : StoreEvent), log[k]? = some event → event.progressId = k)
    {before after : List StoreEvent} {event : StoreEvent}
    (hyielded : sub.yielded = before ++ event :: after)
    (hstart : sub'.start = event.progressId + 1)
    (hstream : sub'.stream = { sub.stream with progressId := sub'.stream.progressId }) :
    (after <+: sub'.yielded ∨ sub'.yielded <+: after) ∧
      (after.length = sub'.yielded.length → sub'.stream = sub.stream) := by
  have hwants : sub'.stream.wants = sub.stream.wants := by
    rw [hstream]
    rfl
  obtain ⟨window, hwindow, hafter⟩ := yielded_after h hids hyielded
  have hwindow' : sub'.window log <+: log.drop (event.progressId + 1) := by
    rw [← hstart]
    exact List.take_prefix _ _
  have hyielded' : sub'.yielded = (sub'.window log).filter sub.stream.wants := by
    rw [← hwants]
    exact h'.yielded
  have hcomparable : after <+: sub'.yielded ∨ sub'.yielded <+: after := by
    rw [hafter, hyielded']
    rcases List.prefix_or_prefix_of_prefix hwindow hwindow' with hle | hle
    · exact Or.inl (hle.filter _)
    · exact Or.inr (hle.filter _)
  refine ⟨hcomparable, ?_⟩
  intro hlength
  have heq : after = sub'.yielded := by
    rcases hcomparable with hle | hle
    · exact hle.eq_of_length hlength
    · exact (hle.eq_of_length hlength.symm).symm
  -- both cursors are behind the event that was yielded last
  suffices hcursor : sub'.stream.progressId = sub.stream.progressId by
    rw [hstream, hcursor]
  obtain ⟨first, last, hlast, hlastId⟩ : ∃ first last, sub.yielded = first ++ [last] ∧
      sub.stream.progressId = last.progressId + 1 := by
    rcases h.cursor with ⟨hnil, -⟩ | ⟨first, last, hlast, hid, -⟩
    · rw [hnil] at hyielded
      simp at hyielded
    · exact ⟨first, last, hlast, hid⟩
  rcases h'.cursor with ⟨hnil, hcursor'⟩ | ⟨first', last', hlast', hlastId', -⟩
  · rw [heq, hnil, hlast] at hyielded
    obtain ⟨-, hsame⟩ := List.append_inj' hyielded rfl
    obtain rfl := List.singleton_inj.mp hsame
    rw [hcursor', hstart, hlastId]
  · rw [heq, hlast', ← List.cons_append, ← List.append_assoc, hlast] at hyielded
    obtain ⟨-, hsame⟩ := List.append_inj' hyielded rfl
    obtain rfl := List.singleton_inj.mp hsame
    rw [hlastId', hlastId]

/-- **Subscriptions deliver the event log.** In every run: the event at index `k`
of the log has the progress id `k`; every subscription has yielded exactly the
matching events from its start up to its cursor, and a poll returns the next one
if there is any; nothing was inserted since a task parked that was not woken; and a
subscription that is resumed behind an event yields what the original one yields after
that event. -/
theorem subscriptions_deliver_log {s : Feed}
    (hs : Reachable Feed.step (fun _ _ => True) {} s) :
    (∀ (k : Nat) (event : StoreEvent),
      s.queue.events[k]? = some event → event.progressId = k) ∧
    (∀ sub ∈ s.subscriptions, sub.start ≤ sub.stream.progressId ∧
      sub.yielded = (sub.window s.queue.events).filter sub.stream.wants) ∧
    (∀ sub ∈ s.subscriptions, ∀ waker, (sub.stream.pollNext s.queue waker).1 =
      match (s.queue.events.drop sub.stream.progressId).find? sub.stream.wants with
      | some event => .ready (some event)
      | none => .pending) ∧
    (∀ sub ∈ s.subscriptions, ∀ waker count, sub.waiting = some (waker, count) →
      s.queue.events.length = count) ∧
    (∀ sub ∈ s.subscriptions, ∀ sub' ∈ s.subscriptions, ∀ before event after,
      sub.yielded = before ++ event :: after → sub'.start = event.progressId + 1 →
      sub'.stream = { sub.stream with progressId := sub'.stream.progressId } →
      (after <+: sub'.yielded ∨ sub'.yielded <+: after) ∧
        (after.length = sub'.yielded.length → sub'.stream = sub.stream)) := by
  have hinv : Inv s := hs.invariant inv_start fun _ _ _ h _ hstep => Inv.step h hstep
  refine ⟨hinv.ids, ?_, ?_, ?_, ?_⟩
  · intro sub hsub
    exact ⟨(hinv.exact sub hsub).start_le, (hinv.exact sub hsub).yielded⟩
  · intro sub _ waker
    exact hinv.pollNext_result sub.stream waker
  · intro sub hsub waker count hwaiting
    exact ((hinv.exact sub hsub).waiting waker count hwaiting).2
  · intro sub hsub sub' hsub' before event after hyielded hstart hstream
    exact same_continuation (hinv.exact sub hsub) (hinv.exact sub' hsub') hinv.ids hyielded hstart
      hstream

end Feed

end Model

section Samples

open IrohWillow.Sample

attribute [local instance] acceptingSignatures

/-- The area below a path. -/
def Feed.Sample.area : Area := ⟨.any, pathOf [[1]], .newOpen 0⟩

/-- A stream that skips an event of another area, and one that is resumed behind
the first event that it has yielded. -/
def Feed.Sample.actions : List Feed.Action :=
  [.subscribe namespaceId Feed.Sample.area {}, .poll 0 7,
    .insert (.ingested (entryAt [[2]] 1) .localOrigin),
    .insert (.ingested (entryAt [[1]] 2) .localOrigin),
    .insert (.ingested (entryAt [[1]] 3) (.remote 4)), .poll 0 7, .poll 0 7, .poll 0 7,
    .resume 2 namespaceId Feed.Sample.area {}, .poll 1 8]

set_option maxRecDepth 4000 in
theorem Feed.subscriptions_deliver_log_resumed :
    ∃ s, Reachable Feed.step (fun _ _ => True) {} s ∧
      (s.subscriptions.map (·.yielded.map (·.progressId))) = [[1, 2], [2]] ∧
      ∀ sub ∈ s.subscriptions,
        sub.yielded = (sub.window s.queue.events).filter sub.stream.wants := by
  have hrun : ((run Feed.step {} Feed.Sample.actions).map fun s =>
      s.subscriptions.map (·.yielded.map (·.progressId))) = some [[1, 2], [2]] := by rfl
  obtain ⟨s, hs, hyielded⟩ := Option.map_eq_some_iff.mp hrun
  have hreach := Reachable.of_run_all hs
  exact ⟨s, hreach, hyielded, fun sub hsub =>
    ((Feed.subscriptions_deliver_log hreach).2.1 sub hsub).2⟩

end Samples

end IrohWillow
