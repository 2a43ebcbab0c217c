import IrohWillow.Proto.Meadowcap
import IrohWillow.Util.Channel

/-!
# Store events and subscriptions

The event types of `store/traits.rs` and the `EventQueue` of
`store/memory.rs`, which both storage backends share: an append-only log whose
indices are the progress ids of subscriptions.
-/

namespace IrohWillow

/-- The origin of an ingestion. -/
inductive EntryOrigin where
  | localOrigin
  | remote (session : Nat)
  deriving DecidableEq, Repr

section Events

variable [Meadowcap]

/-- The entries of a list of authorised entries. -/
def entrySet (l : List AuthorisedEntry) : Set Entry := {e | ∃ a ∈ l, a.entry = e}

/-- The entries of a list of ingestions. -/
def entriesOf (l : List (AuthorisedEntry × EntryOrigin)) : List Entry := l.map (·.1.entry)

theorem entriesOf_concat (l : List (AuthorisedEntry × EntryOrigin))
    (x : AuthorisedEntry × EntryOrigin) : entriesOf (l ++ [x]) = entriesOf l ++ [x.1.entry] := by
  simp [entriesOf]

/-- `StoreEvent`, with its progress id. -/
inductive StoreEvent where
  | ingested (id : Nat) (entry : AuthorisedEntry) (origin : EntryOrigin)
  | pruned (id : Nat) (gone cause : AuthorisedEntry)
  deriving DecidableEq

/-- `SubscribeParams`. -/
structure SubscribeParams where
  ignoreEmptyPayloads : Bool := false
  ignoreRemote : Option Nat := none
  ingestOnly : Bool := false
  deriving DecidableEq, Repr

namespace SubscribeParams

/-- `SubscribeParams::includes_entry`. -/
def includesEntry (p : SubscribeParams) (e : Entry) : Bool :=
  !(p.ignoreEmptyPayloads && e.payloadLength == 0)

/-- `SubscribeParams::includes_origin`. -/
def includesOrigin (p : SubscribeParams) (origin : EntryOrigin) : Bool :=
  match p.ignoreRemote with
  | none => true
  | some ignored =>
      match origin with
      | .localOrigin => true
      | .remote session => session != ignored

end SubscribeParams

/-- `StoreEvent::matches`. -/
def StoreEvent.matches (namespaceId : NamespaceId) (area : Area) (params : SubscribeParams) :
    StoreEvent → Bool
  | .ingested _ entry origin =>
      decide (entry.entry.namespaceId = namespaceId) &&
        decide (area.IncludesEntry entry.entry) &&
        params.includesEntry entry.entry && params.includesOrigin origin
  | .pruned _ gone _ =>
      !params.ingestOnly && decide (gone.entry.namespaceId = namespaceId) &&
        decide (area.IncludesEntry gone.entry)

end Events

/-! ## The event queue -/

/-- `EventQueue`: the events from progress id `offset` on, and the tasks to
wake when one is added. -/
structure EventQueue (α : Type) where
  events : List α := []
  offset : Nat := 0
  wakers : List Waker := []
  deriving DecidableEq, Repr

namespace EventQueue

variable {α : Type}

/-- `EventQueue::next_progress_id`. -/
def nextProgressId (q : EventQueue α) : Nat := q.offset + q.events.length

/-- `EventQueue::insert`; every task in `wakers` is woken. -/
def insert (q : EventQueue α) (f : Nat → α) : EventQueue α :=
  { q with events := q.events ++ [f q.nextProgressId], wakers := [] }

/-- `EventQueue::get`. -/
def get (q : EventQueue α) (progressId : Nat) : Option α :=
  if q.offset ≤ progressId then q.events[progressId - q.offset]? else none

/-- The loop of `EventQueue::poll_next` over the remaining events: the first
one that passes the filter, with the progress id after it. -/
def scan (filter : α → Bool) : Nat → List α → Option (Nat × α)
  | _, [] => none
  | i, event :: rest => if filter event then some (i + 1, event) else scan filter (i + 1) rest

/-- The outcome of a poll. -/
inductive PollNext (α : Type) where
  | closed
  | ready (nextId : Nat) (event : α)
  | pending
  deriving DecidableEq, Repr

/-- `EventQueue::poll_next` by the task `waker`. -/
def pollNext (q : EventQueue α) (progressId : Nat) (filter : α → Bool) (waker : Waker) :
    PollNext α × EventQueue α :=
  if progressId < q.offset then (.closed, q)
  else
    match scan filter progressId (q.events.drop (progressId - q.offset)) with
    | some (i, event) => (.ready i event, q)
    | none => (.pending, { q with wakers := q.wakers ++ [waker] })

end EventQueue

end IrohWillow
