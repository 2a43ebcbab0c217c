import IrohWillow.Session.IdealStore
import IrohWillow.Store.Subscriptions

/-!
# Live data in a network

`DataSender::run` of `session/data.rs` subscribes to the entry store for each intersection
that it gets, with parameters that leave out what came from its own session, and sends every
entry that a subscription yields. `DataReceiver` ingests what it receives, with the session as
the origin, so that the entry goes on to all other sessions of the node.

The network is any set of nodes with sessions between them, and one namespace, as the event
queues of a store are separate for each namespace. An entry travels as one message: its framing
and its static token are the subject of other modules. A store is one that keeps the entries
nothing else prunes and says truthfully whether an entry was new.

* `Inv` is the invariant of all runs; a node *knows* an entry when it has it or one that
  prunes it, and knowing is for ever;
* no entry goes back to where it came from, and none crosses a subscription twice;
* when all streams are drained and all messages received, neighbours have the same entries.
-/

namespace IrohWillow

open Transition

/-- The parameters of the subscriptions of `DataSender::run`. -/
def DataSender.params (session : SessionId) : SubscribeParams :=
  { ingestOnly := true, ignoreRemote := some session }

/-- The end of a session at a node. -/
abbrev SessionEnd (ν : Type) := ν × SessionId

/-- The sessions of a network: each end has the other end as its peer. -/
structure Sessions (ν : Type) where
  peer : SessionEnd ν → Option (SessionEnd ν)
  symm : ∀ {x y}, peer x = some y → peer y = some x

section Model

variable {ν σ : Type} [DecidableEq ν] [Meadowcap] [Storage σ]

/-- Insert events one after the other. -/
def Feed.insertAll (s : Feed) : List NewEvent → Feed
  | [] => s
  | event :: rest =>
      insertAll
        { queue := s.queue.insert event.withId
          subscriptions := s.subscriptions.map (wake s.queue.wakers) } rest

omit [Storage σ] in
/-- A node: its entry store, and the events of the namespace with the streams of all data
senders; `sessions` has the session of each stream. -/
structure LiveNode (σ : Type) [Meadowcap] where
  store : σ
  feed : Feed := {}
  sessions : List SessionId := []

/-- What a data sender gets when it polls one of its streams. -/
inductive Forwarded where
  | entry (a : AuthorisedEntry)
  | pending
  /-- The stream has ended. -/
  | closed
  /-- `unreachable!`: the event is not an ingestion. -/
  | panic
  deriving DecidableEq

namespace LiveNode

/-- `ingest_entry`: with a new entry come the events of the entries that it prunes, and then
its own. -/
def ingestEntry (node : LiveNode σ) (a : AuthorisedEntry) (origin : EntryOrigin)
    (pruned : List AuthorisedEntry) : Option (LiveNode σ) :=
  match Storage.ingestEntry node.store a origin with
  | (.ok true, store) =>
      some { node with
        store
        feed := node.feed.insertAll (pruned.map (.pruned · a) ++ [.ingested a origin]) }
  | (.ok false, store) => some { node with store }
  | (.error _, _) => none

/-- `DataSender::run`, `Input::AoiIntersection`. -/
def subscribe (node : LiveNode σ) (session : SessionId) (namespaceId : NamespaceId) (area : Area) :
    LiveNode σ :=
  { node with
    feed := { node.feed with subscriptions := node.feed.subscriptions ++
      [{ start := node.feed.queue.nextProgressId
         stream := subscribeArea node.feed.queue namespaceId area (DataSender.params session) }] }
    sessions := node.sessions ++ [session] }

/-- `DataSender::run`, the `filter_map` of a stream. -/
def forwarded : Poll (Option StoreEvent) → Forwarded
  | .ready (some (.ingested _ a _)) => .entry a
  | .ready (some (.pruned _ _ _)) => .panic
  | .ready none => .closed
  | .pending => .pending

/-- `DataSender::run`, `entry_stream.next()`: the stream at `index` is polled. -/
def forward (node : LiveNode σ) (index : Nat) (waker : Waker) :
    Option (Forwarded × SessionId × LiveNode σ) :=
  match node.feed.subscriptions[index]?, node.sessions[index]? with
  | some sub, some session =>
      some (forwarded (sub.stream.pollNext node.feed.queue waker).1, session,
        { node with feed :=
          { queue := (Feed.polled sub node.feed.queue waker).2
            subscriptions :=
              node.feed.subscriptions.set index (Feed.polled sub node.feed.queue waker).1 } })
  | _, _ => none

end LiveNode

/-- The nodes, what each end of a session has sent on its data channel, how much of it the
other end has received, and all entries that were inserted locally somewhere. -/
structure LiveNetwork (ν σ : Type) [Meadowcap] where
  nodes : ν → LiveNode σ
  sent : SessionEnd ν → List AuthorisedEntry := fun _ => []
  received : SessionEnd ν → Nat := fun _ => 0
  inserted : List AuthorisedEntry := []
  /-- A data sender has stopped: its streams have ended, or it has panicked. -/
  stopped : Bool := false

namespace LiveNetwork

/-- What happens at a node; `pruned` are the entries that an ingestion takes out. -/
inductive Action (ν : Type) where
  | insert (n : ν) (a : AuthorisedEntry) (pruned : List AuthorisedEntry)
  | subscribe (x : SessionEnd ν) (area : Area)
  | forward (n : ν) (index : Nat) (waker : Waker)
  /-- The other end receives the next entry that `x` has sent. -/
  | receive (x : SessionEnd ν) (pruned : List AuthorisedEntry)

/-- Replace a node. -/
def setNode (s : LiveNetwork ν σ) (n : ν) (node : LiveNode σ) : LiveNetwork ν σ :=
  { s with nodes := Function.update s.nodes n node }

/-- One step of the network, with the entries of a namespace. -/
def step (sessions : Sessions ν) (namespaceId : NamespaceId) (s : LiveNetwork ν σ) :
    Action ν → Option (LiveNetwork ν σ)
  | .insert n a pruned =>
      if a.entry.namespaceId = namespaceId then
        ((s.nodes n).ingestEntry a .localOrigin pruned).map fun node =>
          { s.setNode n node with inserted := s.inserted ++ [a] }
      else none
  | .subscribe x area =>
      match sessions.peer x with
      | none => none
      | some _ => some (s.setNode x.1 ((s.nodes x.1).subscribe x.2 namespaceId area))
  | .forward n index waker =>
      match (s.nodes n).forward index waker with
      | none => none
      | some (.entry a, session, node) =>
          some { s.setNode n node with
            sent := Function.update s.sent (n, session) (s.sent (n, session) ++ [a]) }
      | some (.pending, _, node) => some (s.setNode n node)
      | some (.closed, _, node) => some { s.setNode n node with stopped := true }
      | some (.panic, _, node) => some { s.setNode n node with stopped := true }
  | .receive x pruned =>
      match sessions.peer x, (s.sent x)[s.received x]? with
      | some y, some a =>
          ((s.nodes y.1).ingestEntry a (.remote y.2) pruned).map fun node =>
            { s.setNode y.1 node with
              received := Function.update s.received x (s.received x + 1) }
      | _, _ => none

/-- All nodes have their stores, and nothing has happened yet. -/
def start (stores : ν → σ) : LiveNetwork ν σ := { nodes := fun n => { store := stores n } }

end LiveNetwork

/-! ## What a node knows -/

/-- `ingest_entry` returns `true` exactly for an entry that is not known yet. -/
structure Storage.ReportsNew (contents : σ → NamespaceId → Set Entry) : Prop where
  new : ∀ (store : σ) a origin isNew,
    (∀ ns, Frontier.frontier Entry.Prunes (contents store ns) = contents store ns) →
    (Storage.ingestEntry store a origin).1 = .ok isNew →
    (isNew = true ↔
      ¬ Frontier.Covered Entry.Prunes (contents store a.entry.namespaceId) a.entry)

omit [DecidableEq ν] in
theorem IdealStore.reportsNew [Blake3] : Storage.ReportsNew IdealStore.contents where
  new s a origin isNew _ h := by
    obtain rfl : (s.ingest a).1 = isNew := Except.ok.inj h
    rw [← IdealStore.covers_iff]
    unfold IdealStore.ingest
    split <;> simp [*]

/-- What one ingestion does to the contents of a store. -/
structure Learns (contents : σ → NamespaceId → Set Entry) (store store' : σ) (e : Entry) : Prop where
  frontier : ∀ ns, Frontier.frontier Entry.Prunes (contents store' ns) = contents store' ns
  mono : ∀ ns x, Frontier.Covered Entry.Prunes (contents store ns) x →
    Frontier.Covered Entry.Prunes (contents store' ns) x
  learned : Frontier.Covered Entry.Prunes (contents store' e.namespaceId) e
  only : ∀ ns x, x ∈ contents store' ns → x ∈ contents store ns ∨
    x = e ∧ ¬ Frontier.Covered Entry.Prunes (contents store e.namespaceId) e

theorem learns_ingestEntry {contents : σ → NamespaceId → Set Entry}
    (hlaw : Storage.KeepsFrontier contents) {store : σ}
    (hstore : ∀ ns, Frontier.frontier Entry.Prunes (contents store ns) = contents store ns)
    (a : AuthorisedEntry) (origin : EntryOrigin) :
    Learns contents store (Storage.ingestEntry store a origin).2 a.entry := by
  have hingest := hlaw.ingest store a origin hstore
  have hcovered : ∀ x, Frontier.Covered Entry.Prunes
      (Frontier.frontier Entry.Prunes (insert a.entry (contents store a.entry.namespaceId))) x ↔
      Frontier.Covered Entry.Prunes (insert a.entry (contents store a.entry.namespaceId)) x :=
    fun x => Frontier.covered_frontier_iff ((hlaw.finite store _).insert _)
  refine ⟨fun ns => ?_, fun ns x hx => ?_, ?_, fun ns x hx => ?_⟩
  · rw [hingest]
    split
    · exact Frontier.frontier_frontier
    · exact hstore ns
  · rw [hingest]
    split
    · rename_i hns
      subst hns
      rw [hcovered]
      exact hx.mono (Set.subset_insert _ _)
    · exact hx
  · rw [hingest, if_pos rfl, hcovered]
    exact .of_mem (Set.mem_insert _ _)
  · rw [hingest] at hx
    split at hx
    · rename_i hns
      subst hns
      by_cases hcov : Frontier.Covered Entry.Prunes (contents store a.entry.namespaceId) a.entry
      · rw [Frontier.frontier_insert_of_covered (by rwa [hstore]), hstore] at hx
        exact .inl hx
      · rcases Set.mem_insert_iff.mp (Frontier.frontier_subset hx) with rfl | hx
        · exact .inr ⟨rfl, hcov⟩
        · exact .inl hx
    · exact .inl hx

/-! ## The streams of a node -/

/-- What a subscription has got so far. -/
def Subscription.progress (sub : Subscription) : Nat × EventStream × List StoreEvent :=
  (sub.start, sub.stream, sub.yielded)

theorem Feed.progress_wake (wakers : List Waker) (sub : Subscription) :
    (Feed.wake wakers sub).progress = sub.progress := by
  unfold Feed.wake
  split
  · rfl
  · split <;> rfl

theorem Feed.progress_insertAll (l : List NewEvent) (s : Feed) :
    (s.insertAll l).subscriptions.map Subscription.progress =
      s.subscriptions.map Subscription.progress := by
  induction l generalizing s with
  | nil => rfl
  | cons event rest ih =>
      rw [Feed.insertAll, ih, List.map_map]
      exact List.map_congr_left fun sub _ => Feed.progress_wake _ sub

theorem Feed.Inv.insertAll {s : Feed} (h : s.Inv) (l : List NewEvent) : (s.insertAll l).Inv := by
  induction l generalizing s with
  | nil => exact h
  | cons event rest ih => exact ih (h.insert event)

/-- The events of an ingestion. -/
theorem Feed.events_insertAll (a : AuthorisedEntry) (origin : EntryOrigin)
    (pruned : List AuthorisedEntry) (s : Feed) :
    ∃ before id, (s.insertAll (pruned.map (.pruned · a) ++ [.ingested a origin])).queue.events =
        s.queue.events ++ (before ++ [.ingested id a origin]) ∧
      ∀ event ∈ before, ∃ id gone, event = .pruned id gone a := by
  induction pruned generalizing s with
  | nil => exact ⟨[], _, rfl, fun _ h => nomatch h⟩
  | cons gone rest ih =>
      obtain ⟨before, id, hevents, hbefore⟩ := ih
        { queue := s.queue.insert (NewEvent.pruned gone a).withId
          subscriptions := s.subscriptions.map (wake s.queue.wakers) }
      refine ⟨.pruned s.queue.nextProgressId gone a :: before, id, ?_, ?_⟩
      · refine hevents.trans ?_
        simp [EventQueue.insert, NewEvent.withId]
      · intro event hevent
        rcases List.mem_cons.mp hevent with rfl | hevent
        · exact ⟨_, _, rfl⟩
        · exact hbefore event hevent

omit [DecidableEq ν] [Storage σ] in
/-- The filter of a data sender: entries that did not come from its session. -/
theorem DataSender.wants_iff {session : SessionId} {stream : EventStream} {event : StoreEvent}
    (hparams : stream.params = DataSender.params session) :
    stream.wants event = true ↔ ∃ id a origin, event = .ingested id a origin ∧
      a.entry.namespaceId = stream.namespaceId ∧ stream.area.IncludesEntry a.entry ∧
      origin ≠ .remote session := by
  unfold EventStream.wants StoreEvent.matches
  rw [hparams]
  cases event with
  | pruned id gone cause => simp [DataSender.params]
  | ingested id a origin =>
      have horigin : (DataSender.params session).includesOrigin origin = true ↔
          origin ≠ .remote session := by
        cases origin <;> simp [DataSender.params, SubscribeParams.includesOrigin]
      have hentry : (DataSender.params session).includesEntry a.entry = true := rfl
      simp only [Bool.and_eq_true, decide_eq_true_eq, hentry, horigin]
      constructor
      · rintro ⟨⟨⟨hns, harea⟩, -⟩, hne⟩
        exact ⟨id, a, origin, rfl, hns, harea, hne⟩
      · rintro ⟨_, _, _, heq, hns, harea, hne⟩
        obtain ⟨rfl, rfl, rfl⟩ := StoreEvent.ingested.inj heq
        exact ⟨⟨⟨hns, harea⟩, trivial⟩, hne⟩

namespace LiveNode

/-- The events of the store of the node. -/
def log (node : LiveNode σ) : List StoreEvent := node.feed.queue.events

/-- A stream of the session has started at `start` and has yielded these events. -/
def Streams (node : LiveNode σ) (session : SessionId) (start : Nat) (stream : EventStream)
    (yielded : List StoreEvent) : Prop :=
  ∃ index : Nat, node.sessions[index]? = some session ∧
    (node.feed.subscriptions.map Subscription.progress)[index]? = some (start, stream, yielded)

variable {node node' : LiveNode σ} {session : SessionId} {start : Nat} {stream : EventStream}
  {yielded : List StoreEvent}

omit [Storage σ] in
theorem Streams.exists_sub (h : node.Streams session start stream yielded) :
    ∃ sub ∈ node.feed.subscriptions, sub.start = start ∧ sub.stream = stream ∧
      sub.yielded = yielded := by
  obtain ⟨index, -, hsub⟩ := h
  rw [List.getElem?_map] at hsub
  obtain ⟨sub, hget, hprogress⟩ := Option.map_eq_some_iff.mp hsub
  obtain ⟨hstart, hrest⟩ := Prod.mk.inj hprogress
  obtain ⟨hstream, hyielded⟩ := Prod.mk.inj hrest
  exact ⟨sub, List.mem_of_getElem? hget, hstart, hstream, hyielded⟩

omit [Storage σ] in
/-- A stream has yielded events of the log that pass its filter. -/
theorem Streams.mem_log (h : node.Streams session start stream yielded) (hinv : node.feed.Inv)
    {event : StoreEvent} (hevent : event ∈ yielded) :
    event ∈ node.log ∧ stream.wants event = true := by
  obtain ⟨sub, hsub, -, rfl, rfl⟩ := h.exists_sub
  rw [(hinv.exact sub hsub).yielded] at hevent
  obtain ⟨hwindow, hwants⟩ := List.mem_filter.mp hevent
  exact ⟨List.mem_of_mem_drop (List.mem_of_mem_take hwindow), hwants⟩

/-- What `ingest_entry` does to a node. -/
structure Ingests (node node' : LiveNode σ) (a : AuthorisedEntry) (origin : EntryOrigin)
    (isNew : Bool) : Prop where
  result : (Storage.ingestEntry node.store a origin).1 = .ok isNew
  store : node'.store = (Storage.ingestEntry node.store a origin).2
  sessions : node'.sessions = node.sessions
  progress : node'.feed.subscriptions.map Subscription.progress =
    node.feed.subscriptions.map Subscription.progress
  feed : node.feed.Inv → node'.feed.Inv
  log : isNew = false ∧ node'.log = node.log ∨ isNew = true ∧
    ∃ before id, node'.log = node.log ++ (before ++ [.ingested id a origin]) ∧
      ∀ event ∈ before, ∃ id gone, event = .pruned id gone a

theorem ingests_of_ingestEntry {a : AuthorisedEntry} {origin : EntryOrigin}
    {pruned : List AuthorisedEntry} (h : node.ingestEntry a origin pruned = some node') :
    ∃ isNew, Ingests node node' a origin isNew := by
  unfold ingestEntry at h
  split at h
  · rename_i store hres
    obtain rfl := Option.some.inj h
    refine ⟨true, by rw [hres], by rw [hres], rfl, Feed.progress_insertAll _ _,
      fun hinv => hinv.insertAll _, .inr ⟨rfl, ?_⟩⟩
    exact Feed.events_insertAll a origin pruned node.feed
  · rename_i store hres
    obtain rfl := Option.some.inj h
    exact ⟨false, by rw [hres], by rw [hres], rfl, rfl, id, .inl ⟨rfl, rfl⟩⟩
  · cases h

theorem Ingests.streams {a : AuthorisedEntry} {origin : EntryOrigin} {isNew : Bool}
    (h : Ingests node node' a origin isNew) :
    node'.Streams session start stream yielded ↔ node.Streams session start stream yielded := by
  unfold Streams
  rw [h.sessions, h.progress]

/-- The events that were there stay; a new one is about the entry. -/
theorem Ingests.mem_log {a : AuthorisedEntry} {origin : EntryOrigin} {isNew : Bool}
    (h : Ingests node node' a origin isNew) {id : Nat} {b : AuthorisedEntry} {o : EntryOrigin}
    (hb : .ingested id b o ∈ node'.log) : .ingested id b o ∈ node.log ∨ b = a ∧ o = origin := by
  rcases h.log with ⟨-, hlog⟩ | ⟨-, before, id', hlog, hbefore⟩
  · rw [hlog] at hb
    exact .inl hb
  · rw [hlog] at hb
    rcases List.mem_append.mp hb with hb | hb
    · exact .inl hb
    · rcases List.mem_append.mp hb with hb | hb
      · obtain ⟨id, gone, heq⟩ := hbefore _ hb
        cases heq
      · obtain ⟨-, rfl, rfl⟩ := StoreEvent.ingested.inj (List.mem_singleton.mp hb)
        exact .inr ⟨rfl, rfl⟩

theorem Ingests.subset_log {a : AuthorisedEntry} {origin : EntryOrigin} {isNew : Bool}
    (h : Ingests node node' a origin isNew) : node.log ⊆ node'.log := by
  rcases h.log with ⟨-, hlog⟩ | ⟨-, before, id, hlog, -⟩
  · rw [hlog]
    exact List.Subset.refl _
  · rw [hlog]
    exact List.subset_append_left _ _

omit [Storage σ] in
/-- A new stream beside the old ones. -/
theorem streams_subscribe {session' : SessionId} {ns : NamespaceId} {area : Area}
    (hlen : node.sessions.length = node.feed.subscriptions.length) :
    (node.subscribe session' ns area).Streams session start stream yielded ↔
      node.Streams session start stream yielded ∨
        session = session' ∧ start = node.feed.queue.nextProgressId ∧
          stream = subscribeArea node.feed.queue ns area (DataSender.params session') ∧
          yielded = [] := by
  unfold Streams subscribe
  dsimp only
  rw [List.map_append, List.map_cons, List.map_nil]
  constructor
  · rintro ⟨index, hsession, hprogress⟩
    by_cases hlt : index < node.sessions.length
    · rw [List.getElem?_append_left hlt] at hsession
      rw [List.getElem?_append_left (by rw [List.length_map]; omega)] at hprogress
      exact .inl ⟨index, hsession, hprogress⟩
    · have hindex : index = node.sessions.length := by
        have hlt' := (List.getElem?_eq_some_iff.mp hsession).1
        rw [List.length_append, List.length_singleton] at hlt'
        omega
      rw [hindex, List.getElem?_concat_length] at hsession
      rw [hindex, hlen, ← List.length_map (f := Subscription.progress),
        List.getElem?_concat_length] at hprogress
      obtain ⟨hstart, hrest⟩ := Prod.mk.inj (Option.some.inj hprogress)
      obtain ⟨hstream, hyielded⟩ := Prod.mk.inj hrest
      exact .inr ⟨(Option.some.inj hsession).symm, hstart.symm, hstream.symm, hyielded.symm⟩
  · rintro (⟨index, hsession, hprogress⟩ | ⟨rfl, rfl, rfl, rfl⟩)
    · refine ⟨index, ?_, ?_⟩
      · rw [List.getElem?_append_left (List.getElem?_eq_some_iff.mp hsession).1]
        exact hsession
      · rw [List.getElem?_append_left (List.getElem?_eq_some_iff.mp hprogress).1]
        exact hprogress
    · refine ⟨node.sessions.length, List.getElem?_concat_length, ?_⟩
      rw [hlen, ← List.length_map (f := Subscription.progress), List.getElem?_concat_length]
      rfl

/-- What a poll of a data sender does to its node. -/
structure Polls (node node' : LiveNode σ) (session : SessionId) : Prop where
  store : node'.store = node.store
  log : node'.log = node.log
  sessions : node'.sessions = node.sessions
  length : node'.feed.subscriptions.length = node.feed.subscriptions.length
  feed : node'.feed.Inv

/-- A stream of the session goes on by one event, the other ones stay. -/
structure Yields (node node' : LiveNode σ) (session : SessionId) (event : StoreEvent) : Prop where
  before : ∀ session' start stream yielded, node.Streams session' start stream yielded →
    ∃ stream' yielded', node'.Streams session' start stream' yielded' ∧ yielded ⊆ yielded'
  after : ∀ session' start stream yielded, node'.Streams session' start stream yielded →
    node.Streams session' start stream yielded ∨ session' = session ∧ ∃ stream₀ yielded₀,
      node.Streams session start stream₀ yielded₀ ∧ yielded = yielded₀ ++ [event] ∧
      stream.params = stream₀.params
  new : ∃ start stream yielded, node'.Streams session start stream yielded ∧ event ∈ yielded
  wants : ∃ start stream yielded, node.Streams session start stream yielded ∧
    stream.wants event = true

omit [Storage σ] in
/-- One stream of the session has new progress. -/
theorem streams_set {session' : SessionId} {index : Nat} {x : Nat × EventStream × List StoreEvent}
    (hsessions : node'.sessions = node.sessions)
    (hprogress : node'.feed.subscriptions.map Subscription.progress =
      (node.feed.subscriptions.map Subscription.progress).set index x)
    (hlt : index < node.feed.subscriptions.length)
    (hsession : node.sessions[index]? = some session') :
    node'.Streams session start stream yielded ↔
      session = session' ∧ (start, stream, yielded) = x ∨
        ∃ i ≠ index, node.sessions[i]? = some session ∧
          (node.feed.subscriptions.map Subscription.progress)[i]? = some (start, stream, yielded) := by
  have hlt' : index < (node.feed.subscriptions.map Subscription.progress).length := by
    rw [List.length_map]
    exact hlt
  unfold Streams
  rw [hsessions, hprogress]
  constructor
  · rintro ⟨i, hi, hget⟩
    by_cases hindex : i = index
    · rw [hindex, List.getElem?_set_self hlt'] at hget
      rw [hindex, hsession] at hi
      exact .inl ⟨(Option.some.inj hi).symm, (Option.some.inj hget).symm⟩
    · rw [List.getElem?_set_ne (Ne.symm hindex)] at hget
      exact .inr ⟨i, hindex, hi, hget⟩
  · rintro (⟨rfl, rfl⟩ | ⟨i, hindex, hi, hget⟩)
    · exact ⟨index, hsession, List.getElem?_set_self hlt'⟩
    · refine ⟨i, hi, ?_⟩
      rw [List.getElem?_set_ne (Ne.symm hindex)]
      exact hget

omit [Storage σ] in
/-- The progress at one index is as it was. -/
theorem set_progress {index : Nat} {x : Nat × EventStream × List StoreEvent}
    (h : (node.feed.subscriptions.map Subscription.progress)[index]? = some x) :
    (node.feed.subscriptions.map Subscription.progress).set index x =
      node.feed.subscriptions.map Subscription.progress := by
  obtain ⟨hlt, hget⟩ := List.getElem?_eq_some_iff.mp h
  rw [← hget, List.set_getElem_self]

omit [Storage σ] in
/-- A data sender waits, or gets the next event of a stream. -/
theorem forward_cases (hinv : node.feed.Inv) {index : Nat} {waker : Waker} {f : Forwarded}
    (h : node.forward index waker = some (f, session, node')) :
    Polls node node' session ∧
      (f = .pending ∧ (∀ session' start stream yielded,
        node'.Streams session' start stream yielded ↔
          node.Streams session' start stream yielded) ∨
      ∃ event, f = forwarded (.ready (some event)) ∧ event ∈ node.log ∧
        Yields node node' session event) := by
  unfold forward at h
  split at h
  · rename_i sub session' hsub hsession
    obtain ⟨hf, hrest⟩ := Prod.mk.inj (Option.some.inj h)
    obtain ⟨rfl, hnode⟩ := Prod.mk.inj hrest
    have hlt : index < node.feed.subscriptions.length := (List.getElem?_eq_some_iff.mp hsub).1
    have hpolls : Polls node node' session' := by
      subst hnode
      refine ⟨rfl, ?_, rfl, List.length_set, ?_⟩
      · show (Feed.polled sub node.feed.queue waker).2.events = _
        rcases hinv.pollNext sub.stream waker with ⟨-, hpoll⟩ | ⟨_, _, _, -, -, -, hpoll⟩
        · rw [Feed.polled, hpoll]
          rfl
        · rw [Feed.polled, hpoll]
          rfl
      · refine Feed.Inv.step (a := .poll index waker) hinv ?_
        simp only [Feed.step, hsub]
    have hprogress : node'.feed.subscriptions.map Subscription.progress =
        (node.feed.subscriptions.map Subscription.progress).set index
          (Feed.polled sub node.feed.queue waker).1.progress := by
      subst hnode
      exact List.map_set
    have hold : (node.feed.subscriptions.map Subscription.progress)[index]? = some sub.progress := by
      rw [List.getElem?_map, hsub]
      rfl
    refine ⟨hpolls, ?_⟩
    rcases hinv.pollNext sub.stream waker with
      ⟨-, hpoll⟩ | ⟨skipped, event, rest, hlog, -, hwants, hpoll⟩
    · refine .inl ⟨?_, fun session'' start stream yielded => ?_⟩
      · rw [← hf, hpoll]
        rfl
      · have hsame : (Feed.polled sub node.feed.queue waker).1.progress = sub.progress := by
          rw [Feed.polled, hpoll]
          rfl
        unfold Streams
        rw [hpolls.sessions, hprogress, hsame, set_progress hold]
    · refine .inr ⟨event, ?_, ?_, ?_⟩
      · rw [← hf, hpoll]
      · have hevent : event ∈ node.feed.queue.events.drop sub.stream.progressId := by
          rw [hlog]
          simp
        exact List.mem_of_mem_drop hevent
      · have hnew : (Feed.polled sub node.feed.queue waker).1.progress = (sub.start,
            { sub.stream with progressId := sub.stream.progressId + skipped.length + 1 },
            sub.yielded ++ [event]) := by
          rw [Feed.polled, hpoll]
          rfl
        rw [hnew] at hprogress
        have hset : ∀ session'' start stream yielded,
            node'.Streams session'' start stream yielded ↔ _ := fun _ _ _ _ =>
          streams_set hpolls.sessions hprogress hlt hsession
        refine ⟨?_, ?_, ?_, sub.start, sub.stream, sub.yielded, ⟨index, hsession, hold⟩, hwants⟩
        · rintro session'' start stream yielded ⟨i, hi, hget⟩
          by_cases hindex : i = index
          · rw [hindex, hold] at hget
            rw [hindex, hsession] at hi
            obtain ⟨rfl, hrest⟩ := Prod.mk.inj (Option.some.inj hget)
            obtain ⟨rfl, rfl⟩ := Prod.mk.inj hrest
            refine ⟨_, _, (hset _ _ _ _).mpr (.inl ⟨(Option.some.inj hi).symm, rfl⟩), ?_⟩
            exact List.subset_append_left _ _
          · exact ⟨stream, yielded, (hset _ _ _ _).mpr (.inr ⟨i, hindex, hi, hget⟩),
              List.Subset.refl _⟩
        · intro session'' start stream yielded hstreams
          rcases (hset _ _ _ _).mp hstreams with ⟨rfl, heq⟩ | ⟨i, -, hi, hget⟩
          · obtain ⟨rfl, hrest⟩ := Prod.mk.inj heq
            obtain ⟨rfl, rfl⟩ := Prod.mk.inj hrest
            exact .inr ⟨rfl, sub.stream, sub.yielded, ⟨index, hsession, hold⟩, rfl, rfl⟩
          · exact .inl ⟨i, hi, hget⟩
        · exact ⟨_, _, _, (hset _ _ _ _).mpr (.inl ⟨rfl, rfl⟩), by simp⟩
  · cases h

end LiveNode

/-- The entry of an `Ingested` event. -/
def StoreEvent.ingestedEntry : StoreEvent → Option Entry
  | .ingested _ a _ => some a.entry
  | .pruned _ _ _ => none

/-- When no entry is there twice, an entry has one event. -/
theorem StoreEvent.eq_of_ingestedEntry {l : List StoreEvent}
    (h : (l.filterMap StoreEvent.ingestedEntry).Nodup) {event event' : StoreEvent} {e : Entry}
    (hmem : event ∈ l) (hmem' : event' ∈ l) (he : event.ingestedEntry = some e)
    (he' : event'.ingestedEntry = some e) : event = event' := by
  induction l with
  | nil => cases hmem
  | cons x rest ih =>
      have hrest : (rest.filterMap StoreEvent.ingestedEntry).Nodup :=
        h.sublist ((List.sublist_cons_self x rest).filterMap _)
      -- the entry of `x` is not one of the others
      have hfirst : ∀ y ∈ rest, x.ingestedEntry = some e → y.ingestedEntry ≠ some e := by
        intro y hy hx hye
        rw [List.filterMap_cons_some hx] at h
        exact (List.nodup_cons.mp h).1 (List.mem_filterMap.mpr ⟨y, hy, hye⟩)
      rcases List.mem_cons.mp hmem with rfl | hin
      · rcases List.mem_cons.mp hmem' with rfl | hin'
        · rfl
        · exact absurd he' (hfirst event' hin' he)
      · rcases List.mem_cons.mp hmem' with rfl | hin'
        · exact absurd he (hfirst event hin he')
        · exact ih hrest hin hin'

/-! ## The invariant -/

namespace LiveNetwork

variable (sessions : Sessions ν) (contents : σ → NamespaceId → Set Entry) (stores : ν → σ)

/-- The node has the entry, or one that prunes it. -/
def Knows (s : LiveNetwork ν σ) (n : ν) (e : Entry) : Prop :=
  Frontier.Covered Entry.Prunes (contents (s.nodes n).store e.namespaceId) e

/-- The invariant of all runs. -/
structure Inv (s : LiveNetwork ν σ) : Prop where
  frontier : ∀ n ns, Frontier.frontier Entry.Prunes (contents (s.nodes n).store ns) =
    contents (s.nodes n).store ns
  initial : ∀ n ns e, Frontier.Covered Entry.Prunes (contents (stores n) ns) e →
    Frontier.Covered Entry.Prunes (contents (s.nodes n).store ns) e
  contained : ∀ n ns, ∀ e ∈ contents (s.nodes n).store ns, e ∈ contents (stores n) ns ∨
    ∃ id a origin, .ingested id a origin ∈ (s.nodes n).log ∧ a.entry = e
  feed : ∀ n, (s.nodes n).feed.Inv
  length : ∀ n, (s.nodes n).sessions.length = (s.nodes n).feed.subscriptions.length
  params : ∀ n session start stream yielded,
    (s.nodes n).Streams session start stream yielded →
    stream.params = DataSender.params session ∧ ∃ y, sessions.peer (n, session) = some y
  /-- A node knows what it has ingested, and so does the node it came from. -/
  logged : ∀ n id a origin, .ingested id a origin ∈ (s.nodes n).log →
    s.Knows contents n a.entry ∧ a ∈ s.inserted ∧
    ∀ session, origin = .remote session →
      ∃ y, sessions.peer (n, session) = some y ∧ s.Knows contents y.1 a.entry
  once : ∀ n, ((s.nodes n).log.filterMap StoreEvent.ingestedEntry).Nodup
  source : ∀ n session, ∀ a ∈ s.sent (n, session), ∃ start stream yielded id origin,
    (s.nodes n).Streams session start stream yielded ∧ .ingested id a origin ∈ yielded
  forwarded : ∀ n session start stream yielded id a origin,
    (s.nodes n).Streams session start stream yielded → .ingested id a origin ∈ yielded →
    a ∈ s.sent (n, session)
  bound : ∀ x, s.received x ≤ (s.sent x).length
  received : ∀ x y, sessions.peer x = some y → ∀ a ∈ (s.sent x).take (s.received x),
    s.Knows contents y.1 a.entry
  inserted : ∀ a ∈ s.inserted, ∃ n, s.Knows contents n a.entry
  stopped : s.stopped = false

variable {sessions contents stores} {s s' : LiveNetwork ν σ} {namespaceId : NamespaceId}

omit [DecidableEq ν] [Storage σ] in
theorem inv_start
    (hstores : ∀ n ns, Frontier.frontier Entry.Prunes (contents (stores n) ns) =
      contents (stores n) ns) : Inv sessions contents stores (start stores) where
  frontier := hstores
  initial _ _ _ h := h
  contained _ _ _ h := .inl h
  feed _ := Feed.inv_start
  length _ := rfl
  params _ _ _ _ _ h := by
    obtain ⟨index, hindex, -⟩ := h
    cases hindex
  logged _ _ _ _ h := nomatch h
  once _ := List.nodup_nil
  source _ _ _ h := nomatch h
  forwarded _ _ _ _ _ _ _ _ h := by
    obtain ⟨index, hindex, -⟩ := h
    cases hindex
  bound _ := Nat.le_refl _
  received _ _ _ _ h := nomatch h
  inserted _ h := nomatch h
  stopped := rfl

omit [DecidableEq ν] [Storage σ] in
/-- A node knows what it has sent. -/
theorem Inv.knows_of_sent (h : Inv sessions contents stores s) {x : SessionEnd ν}
    {a : AuthorisedEntry} (ha : a ∈ s.sent x) : s.Knows contents x.1 a.entry ∧ a ∈ s.inserted := by
  obtain ⟨start, stream, yielded, id, origin, hstreams, hevent⟩ := h.source x.1 x.2 a ha
  obtain ⟨hlog, -⟩ := hstreams.mem_log (h.feed x.1) hevent
  obtain ⟨hknows, hinserted, -⟩ := h.logged x.1 id a origin hlog
  exact ⟨hknows, hinserted⟩

omit [Storage σ] in
/-- What holds of the new node and of the others holds of all. -/
theorem nodes_setNode {P : ν → LiveNode σ → Prop} {n : ν} {node : LiveNode σ} (hnode : P n node)
    (hother : ∀ m, m ≠ n → P m (s.nodes m)) (m : ν) : P m ((s.setNode n node).nodes m) := by
  show P m (Function.update s.nodes n node m)
  by_cases hm : m = n
  · subst hm
    rw [Function.update_self]
    exact hnode
  · rw [Function.update_of_ne hm]
    exact hother m hm

/-! ### Ingesting -/

section Ingest

variable (hlaw : Storage.KeepsFrontier contents) (hnew : Storage.ReportsNew contents)
  (h : Inv sessions contents stores s) {n : ν} {node : LiveNode σ} {a : AuthorisedEntry}
  {origin : EntryOrigin} {isNew : Bool}

omit [DecidableEq ν] in
include hlaw h in
theorem Inv.learns (hin : (s.nodes n).Ingests node a origin isNew) :
    Learns contents (s.nodes n).store node.store a.entry := by
  rw [hin.store]
  exact learns_ingestEntry hlaw (h.frontier n) a origin

include hlaw h in
/-- Knowing is for ever. -/
theorem Inv.knows_mono (hin : (s.nodes n).Ingests node a origin isNew) {m : ν} {e : Entry}
    (hknows : s.Knows contents m e) : (s.setNode n node).Knows contents m e := by
  refine nodes_setNode (P := fun m node => s.Knows contents m e →
    Frontier.Covered _ (contents node.store _) _) (fun hn => ?_) (fun _ _ hm => hm) m hknows
  exact (h.learns hlaw hin).mono _ _ hn

omit [DecidableEq ν] in
include hnew h in
/-- A new entry was not among those that were ingested. -/
theorem Inv.once_ingest (hin : (s.nodes n).Ingests node a origin isNew) :
    (node.log.filterMap StoreEvent.ingestedEntry).Nodup := by
  rcases hin.log with ⟨-, hlog⟩ | ⟨rfl, before, id, hlog, hbefore⟩
  · rw [hlog]
    exact h.once n
  · have hquiet : before.filterMap StoreEvent.ingestedEntry = [] := by
      refine List.filterMap_eq_nil_iff.mpr fun event hevent => ?_
      obtain ⟨id, gone, rfl⟩ := hbefore event hevent
      rfl
    rw [hlog, List.filterMap_append, List.filterMap_append, hquiet, List.nil_append]
    refine List.nodup_append.mpr ⟨h.once n, by simp [StoreEvent.ingestedEntry], ?_⟩
    intro e he e' he' heq
    obtain ⟨event, hevent, hentry⟩ := List.mem_filterMap.mp he
    have hnotKnown := (hnew.new _ a origin true (h.frontier n) hin.result).mp rfl
    cases event with
    | ingested id' b o =>
        obtain ⟨hknows, -⟩ := h.logged n id' b o hevent
        have hb : b.entry = e := Option.some.inj hentry
        have ha : e' = a.entry := by simpa [StoreEvent.ingestedEntry] using he'
        rw [Knows, hb, heq, ha] at hknows
        exact hnotKnown hknows
    | pruned id' gone cause => cases hentry

include hlaw hnew h in
/-- A node ingests an entry, which the node it came from knows. -/
theorem Inv.ingest (hin : (s.nodes n).Ingests node a origin isNew) {l : List AuthorisedEntry}
    (ha : a ∈ s.inserted ++ l) (hl : ∀ b ∈ l, b = a)
    (horigin : ∀ session, origin = .remote session →
      ∃ y, sessions.peer (n, session) = some y ∧ s.Knows contents y.1 a.entry) :
    Inv sessions contents stores { s.setNode n node with inserted := s.inserted ++ l } := by
  have hlearns := h.learns hlaw hin
  have hmono : ∀ {m e}, s.Knows contents m e → (s.setNode n node).Knows contents m e :=
    h.knows_mono hlaw hin
  have hself : (s.setNode n node).Knows contents n a.entry := by
    refine nodes_setNode (P := fun m node => m = n →
      Frontier.Covered _ (contents node.store _) a.entry) (fun _ => hlearns.learned)
      (fun m hm heq => absurd heq hm) n rfl
  have hstreams : ∀ m session start stream yielded,
      ((s.setNode n node).nodes m).Streams session start stream yielded ↔
        (s.nodes m).Streams session start stream yielded := by
    intro m session start stream yielded
    exact nodes_setNode (P := fun m node => node.Streams session start stream yielded ↔
      (s.nodes m).Streams session start stream yielded) hin.streams (fun _ _ => Iff.rfl) m
  refine ⟨?_, ?_, ?_, ?_, ?_, ?_, ?_, ?_, ?_, ?_, h.bound, ?_, ?_, h.stopped⟩
  · exact nodes_setNode (P := fun m node => ∀ ns, Frontier.frontier _ (contents node.store ns) =
      contents node.store ns) hlearns.frontier fun m _ => h.frontier m
  · refine nodes_setNode (P := fun m node => ∀ ns e, Frontier.Covered _ (contents (stores m) ns) e →
      Frontier.Covered _ (contents node.store ns) e) (fun ns e he => ?_) fun m _ => h.initial m
    exact hlearns.mono ns e (h.initial n ns e he)
  · refine nodes_setNode (P := fun m node => ∀ ns, ∀ e ∈ contents node.store ns,
      e ∈ contents (stores m) ns ∨ ∃ id a origin, .ingested id a origin ∈ node.log ∧ a.entry = e)
      (fun ns e he => ?_) fun m _ => h.contained m
    rcases hlearns.only ns e he with hold | ⟨rfl, hnot⟩
    · refine (h.contained n ns e hold).imp id ?_
      rintro ⟨id, b, o, hb, hentry⟩
      exact ⟨id, b, o, hin.subset_log hb, hentry⟩
    · -- the entry was not known, so there is an event for it
      have htrue := (hnew.new _ a origin isNew (h.frontier n) hin.result).mpr hnot
      rcases hin.log with ⟨hfalse, -⟩ | ⟨-, before, id, hlog, -⟩
      · rw [htrue] at hfalse
        cases hfalse
      · refine .inr ⟨id, a, origin, ?_, rfl⟩
        rw [hlog]
        simp
  · exact nodes_setNode (P := fun _ node => node.feed.Inv) (hin.feed (h.feed n)) fun m _ => h.feed m
  · refine nodes_setNode (P := fun _ node => node.sessions.length =
      node.feed.subscriptions.length) ?_ fun m _ => h.length m
    have hlen := congrArg List.length hin.progress
    rw [List.length_map, List.length_map] at hlen
    rw [hin.sessions, hlen]
    exact h.length n
  · intro m session start stream yielded hst
    exact h.params m session start stream yielded ((hstreams m session start stream yielded).mp hst)
  · have hold : ∀ m id b o, .ingested id b o ∈ (s.nodes m).log →
        (s.setNode n node).Knows contents m b.entry ∧ b ∈ s.inserted ++ l ∧ ∀ session,
          o = .remote session → ∃ y, sessions.peer (m, session) = some y ∧
            (s.setNode n node).Knows contents y.1 b.entry := by
      intro m id b o hb
      obtain ⟨hknows, hinserted, hremote⟩ := h.logged m id b o hb
      refine ⟨hmono hknows, List.mem_append_left _ hinserted, fun session ho => ?_⟩
      obtain ⟨y, hy, hpeer⟩ := hremote session ho
      exact ⟨y, hy, hmono hpeer⟩
    refine nodes_setNode (P := fun m x => ∀ id b o, .ingested id b o ∈ x.log →
      (s.setNode n node).Knows contents m b.entry ∧ b ∈ s.inserted ++ l ∧ ∀ session,
        o = .remote session → ∃ y, sessions.peer (m, session) = some y ∧
          (s.setNode n node).Knows contents y.1 b.entry) (fun id b o hb => ?_) fun m _ => hold m
    rcases hin.mem_log hb with hb | ⟨rfl, rfl⟩
    · exact hold n id b o hb
    · refine ⟨hself, ha, fun session ho => ?_⟩
      obtain ⟨y, hy, hpeer⟩ := horigin session ho
      exact ⟨y, hy, hmono hpeer⟩
  · exact nodes_setNode (P := fun _ node => (node.log.filterMap StoreEvent.ingestedEntry).Nodup)
      (h.once_ingest hnew hin) fun m _ => h.once m
  · intro m session b hb
    obtain ⟨start, stream, yielded, id, o, hst, hevent⟩ := h.source m session b hb
    exact ⟨start, stream, yielded, id, o, (hstreams _ _ _ _ _).mpr hst, hevent⟩
  · intro m session start stream yielded id b o hst hevent
    exact h.forwarded m session start stream yielded id b o ((hstreams _ _ _ _ _).mp hst) hevent
  · exact fun x y hy b hb => hmono (h.received x y hy b hb)
  · intro b hb
    rcases List.mem_append.mp hb with hb | hb
    · obtain ⟨m, hm⟩ := h.inserted b hb
      exact ⟨m, hmono hm⟩
    · rw [hl b hb]
      exact ⟨n, hself⟩

end Ingest

/-! ### The data senders -/

omit [Storage σ] in
/-- A node looks after its streams, and may send something. -/
theorem Inv.still (h : Inv sessions contents stores s) {n : ν} {node : LiveNode σ}
    {sent : SessionEnd ν → List AuthorisedEntry} (hstore : node.store = (s.nodes n).store)
    (hlog : node.log = (s.nodes n).log) (hfeed : node.feed.Inv)
    (hlength : node.sessions.length = node.feed.subscriptions.length)
    (hsent : ∀ x, s.sent x <+: sent x)
    (hparams : ∀ session start stream yielded, node.Streams session start stream yielded →
      stream.params = DataSender.params session ∧ ∃ y, sessions.peer (n, session) = some y)
    (hsource : ∀ m session, ∀ a ∈ sent (m, session), ∃ start stream yielded id origin,
      ((s.setNode n node).nodes m).Streams session start stream yielded ∧
        .ingested id a origin ∈ yielded)
    (hforwarded : ∀ session start stream yielded id a origin,
      node.Streams session start stream yielded → .ingested id a origin ∈ yielded →
        a ∈ sent (n, session)) :
    Inv sessions contents stores { s.setNode n node with sent := sent } := by
  have hknows : ∀ {m e}, (s.setNode n node).Knows contents m e ↔ s.Knows contents m e := by
    intro m e
    refine nodes_setNode (P := fun m x => Frontier.Covered Entry.Prunes
      (contents x.store e.namespaceId) e ↔ s.Knows contents m e) ?_ (fun _ _ => Iff.rfl) m
    rw [hstore]
    rfl
  refine ⟨?_, ?_, ?_, ?_, ?_, ?_, ?_, ?_, hsource, ?_, ?_, ?_, ?_, h.stopped⟩
  · refine nodes_setNode (P := fun m x => ∀ ns, Frontier.frontier _ (contents x.store ns) =
      contents x.store ns) ?_ fun m _ => h.frontier m
    rw [hstore]
    exact h.frontier n
  · refine nodes_setNode (P := fun m x => ∀ ns e, Frontier.Covered _ (contents (stores m) ns) e →
      Frontier.Covered _ (contents x.store ns) e) ?_ fun m _ => h.initial m
    rw [hstore]
    exact h.initial n
  · refine nodes_setNode (P := fun m x => ∀ ns, ∀ e ∈ contents x.store ns,
      e ∈ contents (stores m) ns ∨ ∃ id a origin, .ingested id a origin ∈ x.log ∧ a.entry = e)
      ?_ fun m _ => h.contained m
    rw [hstore, hlog]
    exact h.contained n
  · exact nodes_setNode (P := fun _ x => x.feed.Inv) hfeed fun m _ => h.feed m
  · exact nodes_setNode (P := fun _ x => x.sessions.length = x.feed.subscriptions.length) hlength
      fun m _ => h.length m
  · exact nodes_setNode (P := fun m x => ∀ session start stream yielded,
      x.Streams session start stream yielded → stream.params = DataSender.params session ∧
        ∃ y, sessions.peer (m, session) = some y) hparams fun m _ => h.params m
  · refine nodes_setNode (P := fun m x => ∀ id b o, .ingested id b o ∈ x.log →
      (s.setNode n node).Knows contents m b.entry ∧ b ∈ s.inserted ∧ ∀ session',
        o = .remote session' → ∃ y, sessions.peer (m, session') = some y ∧
          (s.setNode n node).Knows contents y.1 b.entry) ?_ ?_
    · simp only [hknows, hlog]
      exact h.logged n
    · simp only [hknows]
      exact fun m _ => h.logged m
  · refine nodes_setNode (P := fun _ x => (x.log.filterMap StoreEvent.ingestedEntry).Nodup) ?_
      fun m _ => h.once m
    rw [hlog]
    exact h.once n
  · refine nodes_setNode (P := fun m x => ∀ session start stream yielded id a origin,
      x.Streams session start stream yielded → .ingested id a origin ∈ yielded →
        a ∈ sent (m, session)) hforwarded fun m _ => ?_
    intro session start stream yielded id a origin hst hevent
    exact (hsent (m, session)).subset (h.forwarded m session start stream yielded id a origin hst hevent)
  · exact fun x => (h.bound x).trans (hsent x).length_le
  · intro x y hy b hb
    obtain ⟨l, hl⟩ := hsent x
    have hb' : b ∈ (sent x).take (s.received x) := hb
    rw [← hl, List.take_append_of_le_length (h.bound x)] at hb'
    exact hknows.mpr (h.received x y hy b hb')
  · intro b hb
    obtain ⟨m, hm⟩ := h.inserted b hb
    exact ⟨m, hknows.mpr hm⟩

omit [Storage σ] in
/-- What was sent comes from a stream, as long as streams only go on. -/
theorem Inv.source_mono (h : Inv sessions contents stores s) {n : ν} {node : LiveNode σ}
    (hbefore : ∀ session start stream yielded, (s.nodes n).Streams session start stream yielded →
      ∃ stream' yielded', node.Streams session start stream' yielded' ∧ yielded ⊆ yielded')
    {m : ν} {session : SessionId} {a : AuthorisedEntry} (ha : a ∈ s.sent (m, session)) :
    ∃ start stream yielded id origin,
      ((s.setNode n node).nodes m).Streams session start stream yielded ∧
        .ingested id a origin ∈ yielded := by
  obtain ⟨start, stream, yielded, id, o, hst, hevent⟩ := h.source m session a ha
  obtain ⟨stream', yielded', hst', hsub⟩ : ∃ stream' yielded',
      ((s.setNode n node).nodes m).Streams session start stream' yielded' ∧ yielded ⊆ yielded' :=
    nodes_setNode (P := fun m x => (s.nodes m).Streams session start stream yielded →
      ∃ stream' yielded', x.Streams session start stream' yielded' ∧ yielded ⊆ yielded')
      (hbefore session start stream yielded)
      (fun _ _ hst => ⟨stream, yielded, hst, List.Subset.refl _⟩) m hst
  exact ⟨start, stream', yielded', id, o, hst', hsub hevent⟩

omit [Storage σ] in
/-- The data sender of a session subscribes. -/
theorem Inv.subscribe (h : Inv sessions contents stores s) {x y : SessionEnd ν}
    (hpeer : sessions.peer x = some y) (ns : NamespaceId) (area : Area) :
    Inv sessions contents stores (s.setNode x.1 ((s.nodes x.1).subscribe x.2 ns area)) := by
  have hstreams : ∀ session start stream yielded,
      ((s.nodes x.1).subscribe x.2 ns area).Streams session start stream yielded ↔ _ :=
    fun _ _ _ _ => LiveNode.streams_subscribe (h.length x.1)
  show Inv sessions contents stores
    { s.setNode x.1 ((s.nodes x.1).subscribe x.2 ns area) with sent := s.sent }
  refine h.still (by rfl) (by rfl) ((h.feed x.1).subscribe _ _ rfl) ?_
    (fun _ => List.prefix_refl _) ?_ ?_ ?_
  · show (_ ++ [_]).length = (_ ++ [_]).length
    rw [List.length_append, List.length_append, h.length x.1]
    rfl
  · intro session start stream yielded hst
    rcases (hstreams session start stream yielded).mp hst with hold | ⟨rfl, -, rfl, -⟩
    · exact h.params x.1 session start stream yielded hold
    · exact ⟨rfl, y, hpeer⟩
  · intro m session a ha
    refine h.source_mono (fun session start stream yielded hst => ?_) ha
    exact ⟨stream, yielded, (hstreams _ _ _ _).mpr (.inl hst), List.Subset.refl _⟩
  · intro session start stream yielded id a origin hst hevent
    rcases (hstreams session start stream yielded).mp hst with hold | ⟨-, -, -, rfl⟩
    · exact h.forwarded x.1 session start stream yielded id a origin hold hevent
    · cases hevent

omit [Storage σ] in
/-- A data sender waits. -/
theorem Inv.wait (h : Inv sessions contents stores s) {n : ν} {session : SessionId}
    {node : LiveNode σ} (hpolls : (s.nodes n).Polls node session)
    (hstreams : ∀ session' start stream yielded, node.Streams session' start stream yielded ↔
      (s.nodes n).Streams session' start stream yielded) :
    Inv sessions contents stores (s.setNode n node) := by
  show Inv sessions contents stores { s.setNode n node with sent := s.sent }
  refine h.still hpolls.store hpolls.log hpolls.feed ?_
    (fun _ => List.prefix_refl _) ?_ ?_ ?_
  · rw [hpolls.sessions, hpolls.length]
    exact h.length n
  · intro session start stream yielded hst
    exact h.params n session start stream yielded ((hstreams _ _ _ _).mp hst)
  · intro m session a ha
    refine h.source_mono (fun session start stream yielded hst => ?_) ha
    exact ⟨stream, yielded, (hstreams _ _ _ _).mpr hst, List.Subset.refl _⟩
  · intro session start stream yielded id a origin hst hevent
    exact h.forwarded n session start stream yielded id a origin ((hstreams _ _ _ _).mp hst) hevent

omit [Storage σ] in
/-- What a data sender gets from a stream is sent. -/
theorem Inv.forward (h : Inv sessions contents stores s) {n : ν} {session : SessionId}
    {node : LiveNode σ} {id : Nat} {a : AuthorisedEntry} {origin : EntryOrigin}
    (hpolls : (s.nodes n).Polls node session)
    (hyields : (s.nodes n).Yields node session (.ingested id a origin)) :
    Inv sessions contents stores { s.setNode n node with
      sent := Function.update s.sent (n, session) (s.sent (n, session) ++ [a]) } := by
  have hsent : ∀ x, s.sent x <+:
      Function.update s.sent (n, session) (s.sent (n, session) ++ [a]) x := by
    intro x
    by_cases hx : x = (n, session)
    · rw [hx, Function.update_self]
      exact List.prefix_append _ _
    · rw [Function.update_of_ne hx]
  refine h.still hpolls.store hpolls.log hpolls.feed ?_ hsent ?_ ?_ ?_
  · rw [hpolls.sessions, hpolls.length]
    exact h.length n
  · intro session' start stream yielded hst
    rcases hyields.after session' start stream yielded hst with
      hold | ⟨rfl, stream₀, yielded₀, hold, -, hparams⟩
    · exact h.params n session' start stream yielded hold
    · rw [hparams]
      exact h.params n session' start stream₀ yielded₀ hold
  · intro m session' b hb
    by_cases hx : (m, session') = (n, session)
    · obtain ⟨rfl, rfl⟩ := Prod.mk.inj hx
      rw [Function.update_self] at hb
      rcases List.mem_append.mp hb with hb | hb
      · exact h.source_mono hyields.before hb
      · obtain rfl := List.mem_singleton.mp hb
        obtain ⟨start, stream, yielded, hst, hevent⟩ := hyields.new
        refine ⟨start, stream, yielded, id, origin, ?_, hevent⟩
        show (Function.update s.nodes m node m).Streams _ _ _ _
        rw [Function.update_self]
        exact hst
    · rw [Function.update_of_ne hx] at hb
      exact h.source_mono hyields.before hb
  · intro session' start stream yielded id' b o hst hevent
    rcases hyields.after session' start stream yielded hst with
      hold | ⟨rfl, stream₀, yielded₀, hold, rfl, -⟩
    · exact (hsent _).subset (h.forwarded n session' start stream yielded id' b o hold hevent)
    · rcases List.mem_append.mp hevent with hevent | hevent
      · exact (hsent _).subset (h.forwarded n session' start stream₀ yielded₀ id' b o hold hevent)
      · obtain ⟨-, rfl, -⟩ := StoreEvent.ingested.inj (List.mem_singleton.mp hevent)
        rw [Function.update_self]
        simp

omit [Storage σ] in
/-- The next entry of the other end is received, and is known then. -/
theorem Inv.receive (h : Inv sessions contents stores s) {x y : SessionEnd ν}
    (hpeer : sessions.peer x = some y) {a : AuthorisedEntry}
    (hget : (s.sent x)[s.received x]? = some a) (hknows : s.Knows contents y.1 a.entry) :
    Inv sessions contents stores
      { s with received := Function.update s.received x (s.received x + 1) } := by
  obtain ⟨hlt, hval⟩ := List.getElem?_eq_some_iff.mp hget
  refine ⟨h.frontier, h.initial, h.contained, h.feed, h.length, h.params, h.logged, h.once, h.source,
    h.forwarded, fun z => ?_, fun z w hzw b hb => ?_, h.inserted, h.stopped⟩
  · show Function.update s.received x _ z ≤ _
    by_cases hz : z = x
    · rw [hz, Function.update_self]
      exact hlt
    · rw [Function.update_of_ne hz]
      exact h.bound z
  · by_cases hz : z = x
    · subst hz
      obtain rfl : y = w := Option.some.inj (hpeer.symm.trans hzw)
      have hb' : b ∈ (s.sent z).take (s.received z + 1) := by
        rw [← Function.update_self z (s.received z + 1) s.received]
        exact hb
      rw [← List.take_append_getElem hlt, hval] at hb'
      rcases List.mem_append.mp hb' with hb' | hb'
      · exact h.received z y hpeer b hb'
      · rw [List.mem_singleton.mp hb']
        exact hknows
    · have hb' : b ∈ (s.sent z).take (s.received z) := by
        rw [← Function.update_of_ne hz (s.received x + 1) s.received]
        exact hb
      exact h.received z w hzw b hb'

theorem Inv.step (hlaw : Storage.KeepsFrontier contents) (hnew : Storage.ReportsNew contents)
    (h : Inv sessions contents stores s) {a : Action ν}
    (hstep : s.step sessions namespaceId a = some s') : Inv sessions contents stores s' := by
  cases a with
  | insert n a pruned =>
      rw [LiveNetwork.step, Option.ite_none_right_eq_some] at hstep
      obtain ⟨hns, hstep⟩ := hstep
      obtain ⟨node, hnode, rfl⟩ := Option.map_eq_some_iff.mp hstep
      obtain ⟨isNew, hin⟩ := LiveNode.ingests_of_ingestEntry hnode
      exact h.ingest hlaw hnew hin (by simp) (fun b hb => List.mem_singleton.mp hb)
        fun session ho => nomatch ho
  | subscribe x area =>
      unfold LiveNetwork.step at hstep
      dsimp only at hstep
      split at hstep
      · cases hstep
      · rename_i y hpeer
        obtain rfl := Option.some.inj hstep
        exact h.subscribe hpeer namespaceId area
  | forward n index waker =>
      unfold LiveNetwork.step at hstep
      dsimp only at hstep
      cases hforward : (s.nodes n).forward index waker with
      | none =>
          rw [hforward] at hstep
          cases hstep
      | some res =>
          obtain ⟨f, session, node⟩ := res
          rw [hforward] at hstep
          obtain ⟨hpolls, ⟨rfl, hstreams⟩ | ⟨event, rfl, hlog, hyields⟩⟩ :=
            LiveNode.forward_cases (h.feed n) hforward
          · obtain rfl := Option.some.inj hstep
            exact h.wait hpolls hstreams
          · obtain ⟨start, stream, yielded, hst, hwants⟩ := hyields.wants
            obtain ⟨hparams, -⟩ := h.params n session start stream yielded hst
            obtain ⟨id, b, origin, rfl, -⟩ := (DataSender.wants_iff hparams).mp hwants
            obtain rfl := Option.some.inj hstep
            exact h.forward hpolls hyields
  | receive x pruned =>
      unfold LiveNetwork.step at hstep
      dsimp only at hstep
      split at hstep
      · rename_i y b hpeer hget
        obtain ⟨node, hnode, rfl⟩ := Option.map_eq_some_iff.mp hstep
        obtain ⟨isNew, hin⟩ := LiveNode.ingests_of_ingestEntry hnode
        -- the sender knows the entry, and then the receiver does
        obtain ⟨hknows, hinserted⟩ := h.knows_of_sent (List.mem_of_getElem? hget)
        have hingest : Inv sessions contents stores (s.setNode y.1 node) := by
          have hboth := h.ingest hlaw hnew (l := []) hin (List.mem_append_left _ hinserted)
            (fun c hc => nomatch hc) fun session ho => by
              obtain rfl : y.2 = session := EntryOrigin.remote.inj ho
              exact ⟨x, sessions.symm hpeer, hknows⟩
          rw [List.append_nil] at hboth
          exact hboth
        refine hingest.receive hpeer hget ?_
        show Frontier.Covered _ (contents (Function.update s.nodes y.1 node y.1).store _) _
        rw [Function.update_self]
        exact (h.learns hlaw hin).learned
      · cases hstep

theorem inv_of_reachable (hlaw : Storage.KeepsFrontier contents)
    (hnew : Storage.ReportsNew contents)
    (hstores : ∀ n ns, Frontier.frontier Entry.Prunes (contents (stores n) ns) =
      contents (stores n) ns)
    (hs : Reachable (step sessions namespaceId) (fun _ _ => True) (start stores) s) :
    Inv sessions contents stores s :=
  hs.invariant (inv_start hstores) fun _ _ _ h _ hstep => Inv.step hlaw hnew h hstep

/-! ## No entry goes in circles -/

omit [DecidableEq ν] [Storage σ] in
/-- A stream yields a part of the log, in its order. -/
theorem yielded_sublist (h : Inv sessions contents stores s) {n : ν} {session : SessionId}
    {start : Nat} {stream : EventStream} {yielded : List StoreEvent}
    (hst : (s.nodes n).Streams session start stream yielded) : yielded.Sublist (s.nodes n).log := by
  obtain ⟨sub, hsub, -, -, rfl⟩ := hst.exists_sub
  rw [((h.feed n).exact sub hsub).yielded]
  exact List.filter_sublist.trans ((List.take_sublist _ _).trans (List.drop_sublist _ _))

omit [DecidableEq ν] [Storage σ] in
/-- All that a stream of a session yields are entries that did not come from the session. -/
theorem Inv.of_yielded (h : Inv sessions contents stores s) {n : ν} {session : SessionId}
    {start : Nat} {stream : EventStream} {yielded : List StoreEvent}
    (hst : (s.nodes n).Streams session start stream yielded) {event : StoreEvent}
    (hevent : event ∈ yielded) : ∃ id a origin, event = .ingested id a origin ∧
      event ∈ (s.nodes n).log ∧ origin ≠ .remote session := by
  obtain ⟨hlog, hwants⟩ := hst.mem_log (h.feed n) hevent
  obtain ⟨hparams, -⟩ := h.params n session start stream yielded hst
  obtain ⟨id, a, origin, heq, -, -, hne⟩ := (DataSender.wants_iff hparams).mp hwants
  exact ⟨id, a, origin, heq, hlog, hne⟩

/-- **No entry goes in circles.** In every run of the network: no data sender stops or panics;
each of its subscriptions gets an entry at most once, sends it, and got only entries that
were inserted somewhere; and what a node has ingested from a session is never sent on that
session. -/
theorem forwards_once (hlaw : Storage.KeepsFrontier contents) (hnew : Storage.ReportsNew contents)
    (hstores : ∀ n ns, Frontier.frontier Entry.Prunes (contents (stores n) ns) =
      contents (stores n) ns)
    (hs : Reachable (step sessions namespaceId) (fun _ _ => True) (start stores) s) :
    s.stopped = false ∧ ∀ n session,
      (∀ start stream yielded, (s.nodes n).Streams session start stream yielded →
        (yielded.filterMap StoreEvent.ingestedEntry).Nodup ∧
        ∀ event ∈ yielded, ∃ id a origin, event = .ingested id a origin ∧
          a ∈ s.sent (n, session) ∧ a ∈ s.inserted) ∧
      ∀ id a, .ingested id a (.remote session) ∈ (s.nodes n).log →
        ∀ b ∈ s.sent (n, session), b.entry ≠ a.entry := by
  have h := inv_of_reachable hlaw hnew hstores hs
  refine ⟨h.stopped, fun n session => ⟨fun start stream yielded hst => ⟨?_, ?_⟩, ?_⟩⟩
  · exact (h.once n).sublist ((yielded_sublist h hst).filterMap _)
  · intro event hevent
    obtain ⟨id, a, origin, rfl, hlog, -⟩ := h.of_yielded hst hevent
    exact ⟨id, a, origin, rfl, h.forwarded n session start stream yielded id a origin hst hevent,
      (h.logged n id a origin hlog).2.1⟩
  · intro id a hlog b hb heq
    obtain ⟨start, stream, yielded, id', o, hst, hevent⟩ := h.source n session b hb
    obtain ⟨_, _, _, heq', hlog', horigin⟩ := h.of_yielded hst hevent
    obtain ⟨rfl, rfl, rfl⟩ := StoreEvent.ingested.inj heq'
    -- the log has one event for each entry
    have hsame : StoreEvent.ingested id' b o = .ingested id a (.remote session) :=
      StoreEvent.eq_of_ingestedEntry (h.once n) hlog' hlog (congrArg some heq) rfl
    obtain ⟨-, -, rfl⟩ := StoreEvent.ingested.inj hsame
    exact horigin rfl

/-! ## When all is delivered -/

/-- No stream has anything to forward, and all that was sent is received. -/
structure Quiet (sessions : Sessions ν) (s : LiveNetwork ν σ) : Prop where
  drained : ∀ n index waker f session node,
    (s.nodes n).forward index waker = some (f, session, node) → f = .pending
  received : ∀ x y, sessions.peer x = some y → (s.sent x).length ≤ s.received x

/-- What a session needs: a stream for all entries of the namespace, and the other end knows
what was there before the stream began, as it does after a reconciliation. -/
structure Covers (contents : σ → NamespaceId → Set Entry) (stores : ν → σ)
    (namespaceId : NamespaceId) (s : LiveNetwork ν σ) (x y : SessionEnd ν) : Prop where
  initial : ∀ e ∈ contents (stores x.1) namespaceId, s.Knows contents y.1 e
  stream : ∃ start stream yielded, (s.nodes x.1).Streams x.2 start stream yielded ∧
    stream.namespaceId = namespaceId ∧
    (∀ a ∈ s.inserted, stream.area.IncludesEntry a.entry) ∧
    ∀ k < start, ∀ id a origin, (s.nodes x.1).log[k]? = some (.ingested id a origin) →
      s.Knows contents y.1 a.entry

omit [DecidableEq ν] [Storage σ] in
/-- A stream that has nothing to forward has yielded all that passes its filter. -/
theorem Quiet.yielded (hq : Quiet sessions s) {n : ν} (hfeed : (s.nodes n).feed.Inv)
    {session : SessionId} {start : Nat} {stream : EventStream} {yielded : List StoreEvent}
    (hst : (s.nodes n).Streams session start stream yielded) {k : Nat} {event : StoreEvent}
    (hk : (s.nodes n).log[k]? = some event) (hle : start ≤ k) (hwants : stream.wants event = true) :
    event ∈ yielded := by
  obtain ⟨index, hsession, hprogress⟩ := hst
  rw [List.getElem?_map] at hprogress
  obtain ⟨sub, hsub, heq⟩ := Option.map_eq_some_iff.mp hprogress
  obtain ⟨rfl, hrest⟩ := Prod.mk.inj heq
  obtain ⟨rfl, rfl⟩ := Prod.mk.inj hrest
  have hexact := hfeed.exact sub (List.mem_of_getElem? hsub)
  rw [hexact.yielded]
  refine List.mem_filter.mpr ⟨?_, hwants⟩
  -- the event is not behind the cursor
  have hlt : k < sub.stream.progressId := by
    by_contra hge
    obtain ⟨node, hforward⟩ : ∃ node, (s.nodes n).forward index 0 = some
        (LiveNode.forwarded (sub.stream.pollNext (s.nodes n).feed.queue 0).1, session, node) := by
      unfold LiveNode.forward
      rw [hsub, hsession]
      exact ⟨_, rfl⟩
    have hpending := hq.drained n index 0 _ session node hforward
    have hmem : event ∈ (s.nodes n).feed.queue.events.drop sub.stream.progressId := by
      refine List.mem_of_getElem? (i := k - sub.stream.progressId) ?_
      rw [List.getElem?_drop, Nat.add_sub_cancel' (Nat.le_of_not_lt hge)]
      exact hk
    rcases hfeed.pollNext sub.stream 0 with ⟨hnone, -⟩ | ⟨_, found, _, -, -, hfound, hpoll⟩
    · rw [hnone event hmem] at hwants
      cases hwants
    · rw [hpoll] at hpending
      cases found <;> cases hpending
  refine List.mem_of_getElem? (i := k - sub.start) ?_
  rw [Subscription.window, List.getElem?_take_of_lt (by omega), List.getElem?_drop,
    Nat.add_sub_cancel' hle]
  exact hk

omit [DecidableEq ν] [Storage σ] in
/-- What a node has, its neighbours know. -/
theorem Quiet.knows_of_mem (hq : Quiet sessions s) (h : Inv sessions contents stores s)
    {x y : SessionEnd ν} (hpeer : sessions.peer x = some y)
    (hcovers : s.Covers contents stores namespaceId x y)
    (hns : ∀ a ∈ s.inserted, a.entry.namespaceId = namespaceId) {e : Entry}
    (he : e ∈ contents (s.nodes x.1).store namespaceId) : s.Knows contents y.1 e := by
  rcases h.contained x.1 namespaceId e he with hinitial | ⟨id, a, origin, hlog, rfl⟩
  · exact hcovers.initial e hinitial
  · obtain ⟨-, hinserted, hremote⟩ := h.logged x.1 id a origin hlog
    by_cases horigin : origin = .remote x.2
    · -- it came from there
      obtain ⟨z, hz, hknows⟩ := hremote x.2 horigin
      obtain rfl : y = z := Option.some.inj (hpeer.symm.trans hz)
      exact hknows
    · obtain ⟨start, stream, yielded, hst, hstream, harea, hbefore⟩ := hcovers.stream
      obtain ⟨k, hk, hget⟩ := List.mem_iff_getElem.mp hlog
      have hget' : (s.nodes x.1).log[k]? = some (.ingested id a origin) :=
        List.getElem?_eq_some_iff.mpr ⟨hk, hget⟩
      by_cases hlt : k < start
      · exact hbefore k hlt id a origin hget'
      · -- the stream has yielded it, the data sender has sent it, and it was received
        obtain ⟨hparams, -⟩ := h.params x.1 x.2 start stream yielded hst
        have hwants : stream.wants (.ingested id a origin) = true :=
          (DataSender.wants_iff hparams).mpr
            ⟨id, a, origin, rfl, (hns a hinserted).trans hstream.symm, harea a hinserted, horigin⟩
        have hyielded := hq.yielded (h.feed x.1) hst hget' (Nat.le_of_not_lt hlt) hwants
        have hsent := h.forwarded x.1 x.2 start stream yielded id a origin hst hyielded
        refine h.received x y hpeer a ?_
        rw [List.take_of_length_le (hq.received x y hpeer)]
        exact hsent

/-- Only entries of the namespace are inserted. -/
theorem inserted_namespaceId {start : LiveNetwork ν σ} (hstart : start.inserted = [])
    (hs : Reachable (step sessions namespaceId) (fun _ _ => True) start s) :
    ∀ a ∈ s.inserted, a.entry.namespaceId = namespaceId := by
  refine hs.invariant (P := fun s => ∀ a ∈ s.inserted, a.entry.namespaceId = namespaceId)
    (fun a ha => ?_) fun s action s' h _ hstep => ?_
  · rw [hstart] at ha
    cases ha
  · cases action with
    | insert n a pruned =>
        rw [step, Option.ite_none_right_eq_some] at hstep
        obtain ⟨hns, hstep⟩ := hstep
        obtain ⟨node, -, rfl⟩ := Option.map_eq_some_iff.mp hstep
        intro b hb
        rcases List.mem_append.mp hb with hb | hb
        · exact h b hb
        · rw [List.mem_singleton.mp hb]
          exact hns
    | subscribe x area =>
        unfold step at hstep
        dsimp only at hstep
        split at hstep
        · cases hstep
        · obtain rfl := Option.some.inj hstep
          exact h
    | forward n index waker =>
        unfold step at hstep
        dsimp only at hstep
        split at hstep
        · cases hstep
        all_goals
          obtain rfl := Option.some.inj hstep
          exact h
    | receive x pruned =>
        unfold step at hstep
        dsimp only at hstep
        split at hstep
        · obtain ⟨node, -, rfl⟩ := Option.map_eq_some_iff.mp hstep
          exact h
        · cases hstep

/-- The nodes have a session with each other. -/
def Linked (sessions : Sessions ν) (n m : ν) : Prop :=
  ∃ x y, sessions.peer x = some y ∧ x.1 = n ∧ y.1 = m

/-- What some node has had at the start, and what was inserted since. -/
def everything (contents : σ → NamespaceId → Set Entry) (stores : ν → σ)
    (namespaceId : NamespaceId) (s : LiveNetwork ν σ) : Set Entry :=
  {e | (∃ n, e ∈ contents (stores n) namespaceId) ∨ ∃ a ∈ s.inserted, a.entry = e}

/-- **The network converges.** Let every session have streams for all entries of a namespace,
and let its ends know what the other one had before its stream began. Then, in every run and
whatever way the sessions connect the nodes: when the network is quiet, every node has exactly
the entries that nothing prunes among all that some node had at the start and all that were
inserted at some node. -/
theorem network_converges (hlaw : Storage.KeepsFrontier contents)
    (hnew : Storage.ReportsNew contents)
    (hstores : ∀ n ns, Frontier.frontier Entry.Prunes (contents (stores n) ns) =
      contents (stores n) ns)
    (hconnected : ∀ n m, Relation.ReflTransGen (Linked sessions) n m)
    (hs : Reachable (step sessions namespaceId) (fun _ _ => True) (start stores) s)
    (hcovers : ∀ x y, sessions.peer x = some y → s.Covers contents stores namespaceId x y)
    (hquiet : Quiet sessions s) (n : ν) :
    contents (s.nodes n).store namespaceId =
      Frontier.frontier Entry.Prunes (everything contents stores namespaceId s) := by
  have h := inv_of_reachable hlaw hnew hstores hs
  have hns := inserted_namespaceId rfl hs
  have hinitial_ns : ∀ m, ∀ e ∈ contents (stores m) namespaceId, e.namespaceId = namespaceId :=
    fun m e he => hlaw.namespaceId _ _ e he
  -- knowledge goes along the sessions
  have hspread : ∀ m, Relation.ReflTransGen (Linked sessions) m n → ∀ e : Entry,
      e.namespaceId = namespaceId → s.Knows contents m e → s.Knows contents n e := by
    intro m hpath
    induction hpath using Relation.ReflTransGen.head_induction_on with
    | refl => exact fun _ _ hknows => hknows
    | head hlink _ ih =>
        intro e he hknows
        obtain ⟨x, y, hpeer, rfl, rfl⟩ := hlink
        refine ih e he ?_
        refine Frontier.Covered.trans hknows fun d hd => ?_
        rw [he] at hd ⊢
        have hd' := hquiet.knows_of_mem h hpeer (hcovers x y hpeer) hns hd
        rwa [Knows, hlaw.namespaceId _ _ d hd] at hd'
  refine Frontier.eq_frontier_of_covered (h.frontier n namespaceId) ?_ ?_
  · intro e he
    rcases h.contained n namespaceId e he with hinitial | ⟨id, a, origin, hlog, rfl⟩
    · exact .inl ⟨n, hinitial⟩
    · exact .inr ⟨a, (h.logged n id a origin hlog).2.1, rfl⟩
  · rintro e (⟨m, he⟩ | ⟨a, ha, rfl⟩)
    · have hknows : s.Knows contents m e := by
        rw [Knows, hinitial_ns m e he]
        exact h.initial m namespaceId e (.of_mem he)
      have := hspread m (hconnected m n) e (hinitial_ns m e he) hknows
      rwa [Knows, hinitial_ns m e he] at this
    · obtain ⟨m, hknows⟩ := h.inserted a ha
      have := hspread m (hconnected m n) a.entry (hns a ha) hknows
      rwa [Knows, hns a ha] at this

end LiveNetwork

end Model

section Samples

open IrohWillow.Sample

attribute [local instance] acceptingSignatures timestampHash

namespace LiveNetwork

/-- Three nodes in a row. -/
def Sample.row : Sessions (Fin 3) where
  peer
    | (0, 0) => some (1, 0)
    | (1, 0) => some (0, 0)
    | (1, 1) => some (2, 0)
    | (2, 0) => some (1, 1)
    | _ => none
  symm {x y} h := by
    split at h
    all_goals
      cases h
      try rfl

/-- All sessions subscribe, and an entry goes from the first node to the last. -/
def Sample.actions : List (Action (Fin 3)) :=
  [.subscribe (0, 0) .full, .subscribe (1, 0) .full, .subscribe (1, 1) .full,
    .subscribe (2, 0) .full, .insert 0 (entryAt [[1]] 2) [], .forward 0 0 7, .receive (0, 0) [],
    .forward 1 1 7, .receive (1, 1) []]

/-- The network after these actions. -/
def Sample.last : LiveNetwork (Fin 3) IdealStore :=
  (run (step Sample.row namespaceId) (start fun _ => {}) Sample.actions).getD (start fun _ => {})

theorem Sample.run_actions :
    run (step Sample.row namespaceId) (start fun _ => ({} : IdealStore)) Sample.actions =
      some Sample.last := by rfl

theorem Sample.minimal (n : Fin 3) (ns : NamespaceId) :
    Frontier.frontier Entry.Prunes (IdealStore.contents ((fun _ => {} : Fin 3 → IdealStore) n) ns) =
      IdealStore.contents ((fun _ => {} : Fin 3 → IdealStore) n) ns := by
  refine Frontier.frontier_subset.antisymm fun e he => ?_
  obtain ⟨_, ha, _⟩ := he
  cases ha

theorem Sample.reachable : Reachable (step Sample.row namespaceId) (fun _ _ => True)
    (start fun _ => {}) Sample.last :=
  .of_run_all Sample.run_actions

/-- Every stream of a sample is behind all events. -/
theorem Sample.quiet : Quiet Sample.row Sample.last where
  drained n index waker f session node h := by
    have hdone : ((List.finRange 3).all fun n =>
        (Sample.last.nodes n).feed.subscriptions.all fun sub =>
          ((Sample.last.nodes n).feed.queue.events.drop sub.stream.progressId).all fun event =>
            !sub.stream.wants event) = true := by rfl
    unfold LiveNode.forward at h
    split at h
    · rename_i sub session' hsub hsession
      obtain ⟨rfl, -⟩ := Prod.mk.inj (Option.some.inj h)
      have hnone : ((Sample.last.nodes n).feed.queue.events.drop sub.stream.progressId).find?
          sub.stream.wants = none := by
        refine List.find?_eq_none.mpr fun event hevent => ?_
        have hwants := List.all_eq_true.mp (List.all_eq_true.mp
          (List.all_eq_true.mp hdone n (List.mem_finRange n)) sub (List.mem_of_getElem? hsub))
          event hevent
        simpa using hwants
      have hinv := inv_of_reachable IdealStore.keepsFrontier IdealStore.reportsNew Sample.minimal
        Sample.reachable
      rw [(hinv.feed n).pollNext_result sub.stream waker, hnone]
      rfl
    · cases h
  received x y h := by
    unfold Sample.row at h
    dsimp only at h
    split at h
    all_goals
      first
        | exact Nat.le_refl _
        | cases h

theorem Sample.covers (x y : SessionEnd (Fin 3)) (h : Sample.row.peer x = some y) :
    Sample.last.Covers IdealStore.contents (fun _ => {}) namespaceId x y := by
  refine ⟨fun e he => ?_, ?_⟩
  · obtain ⟨_, ha, _⟩ := he
    cases ha
  · have hfull : ∀ a ∈ Sample.last.inserted, Area.full.IncludesEntry a.entry := by decide
    unfold Sample.row at h
    dsimp only at h
    split at h
    · exact ⟨0, _, _, ⟨0, rfl, rfl⟩, rfl, hfull, fun k hk => nomatch hk⟩
    · exact ⟨0, _, _, ⟨0, rfl, rfl⟩, rfl, hfull, fun k hk => nomatch hk⟩
    · exact ⟨0, _, _, ⟨1, rfl, rfl⟩, rfl, hfull, fun k hk => nomatch hk⟩
    · exact ⟨0, _, _, ⟨0, rfl, rfl⟩, rfl, hfull, fun k hk => nomatch hk⟩
    · cases h

theorem Sample.connected (n m : Fin 3) : Relation.ReflTransGen (Linked Sample.row) n m := by
  have h01 : Linked Sample.row 0 1 := ⟨(0, 0), (1, 0), rfl, rfl, rfl⟩
  have h10 : Linked Sample.row 1 0 := ⟨(1, 0), (0, 0), rfl, rfl, rfl⟩
  have h12 : Linked Sample.row 1 2 := ⟨(1, 1), (2, 0), rfl, rfl, rfl⟩
  have h21 : Linked Sample.row 2 1 := ⟨(2, 0), (1, 1), rfl, rfl, rfl⟩
  have hto : ∀ n : Fin 3, Relation.ReflTransGen (Linked Sample.row) n 1 := by
    intro n
    match n with
    | 0 => exact .single h01
    | 1 => exact .refl
    | 2 => exact .single h21
  have hfrom : ∀ m : Fin 3, Relation.ReflTransGen (Linked Sample.row) 1 m := by
    intro m
    match m with
    | 0 => exact .single h10
    | 1 => exact .refl
    | 2 => exact .single h12
  exact (hto n).trans (hfrom m)

/-- What is inserted at the first node is at the last one. -/
theorem network_converges_row :
    Quiet Sample.row Sample.last ∧ Sample.last.inserted = [entryAt [[1]] 2] ∧
      ∀ n, IdealStore.contents (Sample.last.nodes n).store namespaceId =
        Frontier.frontier Entry.Prunes
          (everything IdealStore.contents (fun _ => {}) namespaceId Sample.last) :=
  ⟨Sample.quiet, by rfl, network_converges IdealStore.keepsFrontier IdealStore.reportsNew
    Sample.minimal Sample.connected Sample.reachable Sample.covers Sample.quiet⟩

/-- The node in the middle sends the entry on, and not back. -/
theorem forwards_once_row :
    Sample.last.sent (1, 1) = [entryAt [[1]] 2] ∧ Sample.last.stopped = false ∧
      ∀ id a, .ingested id a (.remote 0) ∈ (Sample.last.nodes 1).log →
        ∀ b ∈ Sample.last.sent (1, 0), b.entry ≠ a.entry :=
  have h := forwards_once IdealStore.keepsFrontier IdealStore.reportsNew Sample.minimal
    Sample.reachable
  ⟨by rfl, h.1, (h.2 1 0).2⟩

end LiveNetwork

end Samples

end IrohWillow
