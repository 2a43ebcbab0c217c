import IrohWillow.Engine.PendingIntents

/-!
# Who looks after the pending intents

The connection state of a peer names its current task. As long as this task is among the
running ones, something will happen to the pending intents of the peer: the task ends and
its output is handled, or the session of the peer completes. Only when the other node has
refused our dial as a duplicate the manager waits for the connection of the other node
without a task of its own.
-/

namespace IrohWillow

open Transition

namespace PeerManager

variable {m m' : PeerManager} {p q : NodeId}

/-- The task is the one that the connection state of the peer names. -/
def IsCurrent (p : NodeId) (t : ConnTask) : ConnState → Prop
  | .none => False
  | .establishing _ h => t.id = h ∧ t.peer = p ∧ (t.kind = .dial ∨ ∃ conn, t.kind = .accept conn)
  | .active h => t.id = h ∧ t.peer = p ∧ ∃ conn session, t.kind = .channels conn session
  | .terminating h => t.id = h ∧ t.peer = p ∧ ∃ conn, t.kind = .terminate conn

theorem IsCurrent.peer {t : ConnTask} {c : ConnState} (h : IsCurrent p t c) : t.peer = p := by
  cases c with
  | none => exact h.elim
  | establishing d k => exact h.2.1
  | active k => exact h.2.1
  | terminating k => exact h.2.1

/-- The current task of the peer is running. -/
def Current (m : PeerManager) (p : NodeId) (c : ConnState) : Prop :=
  c ≠ .none → ∃ t ∈ m.connTasks, IsCurrent p t c

theorem Current.mono {c : ConnState} (h : Current m p c)
    (hsub : ∀ t ∈ m.connTasks, t.peer = p → t ∈ m'.connTasks) : Current m' p c := by
  intro hc
  obtain ⟨t, ht, hcurrent⟩ := h hc
  exact ⟨t, hsub t ht hcurrent.peer, hcurrent⟩

/-- The peer is looked after, or its dial was refused. -/
structure PeerTended (m : PeerManager) (p : NodeId) (refused : Bool) : Prop where
  current : Current m p (m.entry p).connState
  session : ∀ session, m.sessionEvents p = some session ↔ (m.entry p).sessionState = .active session
  pending : m.pending p ≠ [] → (m.entry p).connState = .none → (m.entry p).sessionState = .none →
    refused = true

/-- Tasks have ids of their own, and nothing is shut down. -/
structure Tidy (m : PeerManager) : Prop where
  ids : (m.connTasks.map (·.id)).Nodup
  fresh : ∀ t ∈ m.connTasks, t.id < m.nextTask
  aborted : m.aborted = []
  running : m.shuttingDown = false

/-- All peers are looked after. -/
structure Tended (m : PeerManager) (refused : NodeId → Bool) : Prop where
  tidy : Tidy m
  peers : ∀ p, PeerTended m p (refused p)

theorem tended_start (nodeId : NodeId) (refused : NodeId → Bool) :
    Tended (ManagerState.start nodeId).manager refused where
  tidy := ⟨List.nodup_nil, fun t ht => (by cases ht), rfl, rfl⟩
  peers _ := ⟨fun h => absurd rfl h, fun _ => ⟨nofun, nofun⟩, fun h => absurd rfl h⟩

/-- What a handler for the peer does to the others: nothing; it may spawn a task. -/
structure Handles (m m' : PeerManager) (p : NodeId) : Prop where
  entry : ∀ q, q ≠ p → m'.entry q = m.entry q
  events : ∀ q, q ≠ p → m'.sessionEvents q = m.sessionEvents q
  tasks : m'.connTasks = m.connTasks ∧ m'.nextTask = m.nextTask ∨
    ∃ kind, m'.connTasks = m.connTasks ++ [⟨m.nextTask, p, kind⟩] ∧ m'.nextTask = m.nextTask + 1
  aborted : m'.aborted = m.aborted
  shuttingDown : m'.shuttingDown = m.shuttingDown

theorem Handles.sub (h : Handles m m' p) : ∀ t ∈ m.connTasks, t ∈ m'.connTasks := by
  intro t ht
  rcases h.tasks with ⟨htasks, -⟩ | ⟨kind, htasks, -⟩
  · rw [htasks]
    exact ht
  · rw [htasks]
    exact List.mem_append_left _ ht

theorem Tidy.handles (h : Tidy m) (hh : Handles m m' p) : Tidy m' := by
  refine ⟨?_, ?_, hh.aborted.trans h.aborted, hh.shuttingDown.trans h.running⟩
  · rcases hh.tasks with ⟨htasks, -⟩ | ⟨kind, htasks, -⟩
    · rw [htasks]
      exact h.ids
    · rw [htasks, List.map_append, List.nodup_append]
      refine ⟨h.ids, by simp, fun i hi j hj => ?_⟩
      obtain ⟨t, ht, rfl⟩ := List.mem_map.mp hi
      obtain rfl := List.mem_singleton.mp hj
      exact (h.fresh t ht).ne
  · intro t ht
    rcases hh.tasks with ⟨htasks, hnext⟩ | ⟨kind, htasks, hnext⟩
    · rw [htasks] at ht
      rw [hnext]
      exact h.fresh t ht
    · rw [htasks] at ht
      rw [hnext]
      rcases List.mem_append.mp ht with ht | ht
      · exact (h.fresh t ht).trans (Nat.lt_succ_self _)
      · rw [List.mem_singleton.mp ht]
        exact Nat.lt_succ_self _

theorem PeerTended.handles {refused : Bool} (h : PeerTended m q refused) (hh : Handles m m' p)
    (hne : q ≠ p) : PeerTended m' q refused where
  current := by
    rw [hh.entry q hne]
    exact h.current.mono fun t ht _ => hh.sub t ht
  session := by
    rw [hh.entry q hne, hh.events q hne]
    exact h.session
  pending := by
    rw [PeerManager.pending, hh.entry q hne]
    exact h.pending

/-- The handler has looked after its peer. -/
theorem Tended.handles {refused refused' : NodeId → Bool} (htidy : Tidy m)
    (hothers : ∀ q, q ≠ p → PeerTended m q (refused q)) (hh : Handles m m' p)
    (hrefused : ∀ q, q ≠ p → refused' q = refused q) (hp : PeerTended m' p (refused' p)) :
    Tended m' refused' where
  tidy := htidy.handles hh
  peers q := by
    by_cases hq : q = p
    · rw [hq]
      exact hp
    · rw [hrefused q hq]
      exact (hothers q hq).handles hh hq

/-! ## The handlers -/

theorem Handles.refl (m : PeerManager) (p : NodeId) : Handles m m p :=
  ⟨fun _ _ => rfl, fun _ _ => rfl, Or.inl ⟨rfl, rfl⟩, rfl, rfl⟩

theorem handles_setPeer (m : PeerManager) (p : NodeId) (info : PeerInfo) :
    Handles m (m.setPeer p info) p :=
  ⟨fun _ hq => m.entry_setPeer_of_ne p hq info, fun _ _ => rfl, Or.inl ⟨rfl, rfl⟩, rfl, rfl⟩

theorem handles_removePeer (m : PeerManager) (p : NodeId) : Handles m (m.removePeer p) p :=
  ⟨fun _ hq => m.entry_removePeer_of_ne p hq, fun _ _ => rfl, Or.inl ⟨rfl, rfl⟩, rfl, rfl⟩

theorem handles_spawn (m : PeerManager) (p : NodeId) (kind : TaskKind) (info : PeerInfo) :
    Handles m ((m.spawnConnTask p kind).setPeer p info) p :=
  ⟨fun _ hq => (m.spawnConnTask p kind).entry_setPeer_of_ne p hq info, fun _ _ => rfl,
    Or.inr ⟨kind, rfl, rfl⟩, rfl, rfl⟩

/-- One handler after another that has spawned no task. -/
theorem Handles.trans {m₁ : PeerManager} (h : Handles m m₁ p)
    (hquiet : m₁.connTasks = m.connTasks ∧ m₁.nextTask = m.nextTask) (h' : Handles m₁ m' p) :
    Handles m m' p where
  entry q hq := (h'.entry q hq).trans (h.entry q hq)
  events q hq := (h'.events q hq).trans (h.events q hq)
  tasks := by
    rw [← hquiet.1, ← hquiet.2]
    exact h'.tasks
  aborted := h'.aborted.trans h.aborted
  shuttingDown := h'.shuttingDown.trans h.shuttingDown

/-- A new task is the current one of its peer. -/
theorem current_spawn (m : PeerManager) (p : NodeId) (kind : TaskKind) :
    ⟨m.nextTask, p, kind⟩ ∈ (m.spawnConnTask p kind).connTasks :=
  List.mem_append_right _ (List.mem_singleton.mpr rfl)

/-- An entry that is set with the same states and no new pending intents, or with a
connection. -/
theorem PeerTended.setPeer {refused : Bool} (h : PeerTended m p refused) {info : PeerInfo}
    (hconn : info.connState = (m.entry p).connState)
    (hsession : info.sessionState = (m.entry p).sessionState)
    (hpending : info.pendingIntents = m.pending p ∨ info.connState ≠ .none ∨
      info.sessionState ≠ .none) : PeerTended (m.setPeer p info) p refused where
  current := by
    rw [entry_setPeer_self, hconn]
    exact h.current.mono fun t ht _ => ht
  session := by
    rw [entry_setPeer_self, hsession]
    exact h.session
  pending := by
    rw [pending_setPeer, Function.update_self, entry_setPeer_self]
    intro hne hc hs
    rcases hpending with hpending | hpending | hpending
    · exact h.pending (hpending ▸ hne) (hconn ▸ hc) (hsession ▸ hs)
    · exact absurd hc hpending
    · exact absurd hs hpending

/-- A task that establishes a connection is spawned. -/
theorem tended_establishing {info : PeerInfo} (hsession : ∀ session,
      m.sessionEvents p = some session ↔ info.sessionState = .active session)
    {kind : TaskKind} (hkind : kind = .dial ∨ ∃ conn, kind = .accept conn)
    (ourDial : Option TaskId) (refused : Bool) :
    PeerTended ((m.spawnConnTask p kind).setPeer p
      { info with connState := .establishing ourDial m.nextTask }) p refused where
  current := by
    rw [entry_setPeer_self]
    exact fun _ => ⟨_, m.current_spawn p kind, rfl, rfl, hkind⟩
  session := by
    rw [entry_setPeer_self]
    exact hsession
  pending _ hc _ := by
    rw [entry_setPeer_self] at hc
    cases hc

/-- `connect_if_inactive` looks after the peer. -/
theorem tended_connectIfInactive (hcurrent : Current m p (m.entry p).connState)
    (hsession : ∀ session,
      m.sessionEvents p = some session ↔ (m.entry p).sessionState = .active session)
    (refused : Bool) : PeerTended (m.connectIfInactive p) p refused := by
  unfold connectIfInactive
  dsimp only
  split
  · exact tended_establishing hsession (.inl rfl) (some m.nextTask) refused
  · rename_i hconn
    refine ⟨?_, ?_, fun _ hc _ => ?_⟩
    · rw [entry_setPeer_self]
      exact hcurrent.mono fun t ht _ => ht
    · rw [entry_setPeer_self]
      exact hsession
    · rw [entry_setPeer_self] at hc
      exact absurd hc hconn

theorem handles_connectIfInactive (m : PeerManager) (p : NodeId) :
    Handles m (m.connectIfInactive p) p := by
  unfold connectIfInactive
  dsimp only
  split
  · exact handles_spawn m p _ _
  · exact handles_setPeer m p _

theorem pushIntent_states (info : PeerInfo) (intent : Intent) (taken : Bool) :
    (info.pushIntent intent taken).2.connState = info.connState ∧
      (info.pushIntent intent taken).2.sessionState = info.sessionState := by
  unfold PeerInfo.pushIntent
  split <;> exact ⟨rfl, rfl⟩

/-- Only a session takes an intent. -/
theorem session_of_pushed {info : PeerInfo} {intent : Intent} {taken : Bool}
    (h : (info.pushIntent intent taken).1 = true) : info.sessionState ≠ .none := by
  intro hnone
  unfold PeerInfo.pushIntent at h
  rw [hnone] at h
  cases taken <;> cases h

theorem handles_submitIntent (m : PeerManager) (p : NodeId) (intent : Intent) (taken : Bool) :
    Handles m (m.submitIntent p intent taken) p := by
  unfold submitIntent
  dsimp only
  split
  · exact handles_setPeer m p _
  · exact (handles_setPeer m p _).trans ⟨rfl, rfl⟩ (handles_connectIfInactive _ p)

theorem tended_submitIntent {refused : Bool} (h : PeerTended m p refused) (intent : Intent)
    (taken : Bool) : PeerTended (m.submitIntent p intent taken) p refused := by
  obtain ⟨hconn, hsession⟩ := pushIntent_states (m.entry p) intent taken
  unfold submitIntent
  dsimp only
  split
  · rename_i hpushed
    refine h.setPeer hconn hsession (.inr (.inr ?_))
    rw [hsession]
    exact session_of_pushed hpushed
  · refine tended_connectIfInactive ?_ ?_ refused
    · rw [entry_setPeer_self, hconn]
      exact h.current.mono fun t ht _ => ht
    · rw [entry_setPeer_self, hsession]
      exact h.session

theorem handles_acceptConn (m : PeerManager) (p : NodeId) (conn : Connection) (intent : Intent)
    (taken : Bool) : Handles m (m.acceptConn p conn intent taken) p :=
  handles_spawn m p _ _

theorem tended_acceptConn {refused : Bool} (hsession : ∀ session,
      m.sessionEvents p = some session ↔ (m.entry p).sessionState = .active session)
    (conn : Connection) (intent : Intent) (taken : Bool) :
    PeerTended (m.acceptConn p conn intent taken) p refused := by
  obtain ⟨-, hstate⟩ := pushIntent_states (m.entry p) intent taken
  have hpushed : ∀ session, m.sessionEvents p = some session ↔
      ((m.entry p).pushIntent intent taken).2.sessionState = .active session := by
    rw [hstate]
    exact hsession
  exact tended_establishing hpushed (.inr ⟨conn, rfl⟩) none refused

/-- What the decision of `handle_connection` leaves alone. -/
theorem Same.handles (h : Same (m.setPeer p (m.entry p)) m') : Handles m m' p where
  entry q hq := (h.entry q).trans (m.entry_setPeer_of_ne p hq _)
  events q _ := by
    rw [h.sessionEvents]
    rfl
  tasks := .inl ⟨h.connTasks, h.nextTask⟩
  aborted := h.aborted
  shuttingDown := h.shuttingDown

theorem Same.entry_self (h : Same (m.setPeer p (m.entry p)) m') : m'.entry p = m.entry p := by
  rw [h.entry, entry_setPeer_self]

theorem handles_handleConnection (m : PeerManager) (p : NodeId) (conn : Connection)
    (intent : Option Intent) (taken : Bool) :
    Handles m (m.handleConnection p conn intent taken) p := by
  cases intent with
  | none => exact .refl m p
  | some intent =>
      obtain ⟨m', hsame, ⟨-, heq⟩ | ⟨-, heq⟩⟩ := m.handleConnection_cases p conn intent taken
      · rw [heq]
        exact hsame.handles.trans ⟨hsame.connTasks, hsame.nextTask⟩
          (handles_acceptConn m' p conn intent taken)
      · rw [heq]
        exact hsame.handles

theorem tended_handleConnection {refused : Bool} (h : PeerTended m p refused) (conn : Connection)
    (intent : Option Intent) (taken : Bool) :
    PeerTended (m.handleConnection p conn intent taken) p refused := by
  cases intent with
  | none => exact h
  | some intent =>
      obtain ⟨m', hsame, ⟨-, heq⟩ | ⟨-, heq⟩⟩ := m.handleConnection_cases p conn intent taken
      · rw [heq]
        refine tended_acceptConn (fun session => ?_) conn intent taken
        rw [hsame.entry_self, hsame.sessionEvents]
        exact h.session session
      · rw [heq]
        refine ⟨?_, fun session => ?_, ?_⟩
        · rw [hsame.entry_self]
          refine h.current.mono fun t ht _ => ?_
          rw [hsame.connTasks]
          exact ht
        · rw [hsame.entry_self, hsame.sessionEvents]
          exact h.session session
        · rw [PeerManager.pending, hsame.entry_self]
          exact h.pending

/-! ### The session is complete -/

/-- The events of the session are no longer awaited. -/
theorem handles_sessionEvents (m : PeerManager) (p : NodeId) (session : Option SessionId) :
    Handles m { m with sessionEvents := Function.update m.sessionEvents p session } p :=
  ⟨fun _ _ => rfl, fun _ hq => Function.update_of_ne hq _ _, .inl ⟨rfl, rfl⟩, rfl, rfl⟩

theorem handles_handleSessionComplete (m : PeerManager) (p : NodeId) (remaining : List Intent) :
    Handles m (m.handleSessionComplete p remaining) p := by
  have hset := handles_sessionEvents m p none
  have hset' := fun info => hset.trans ⟨rfl, rfl⟩ (handles_setPeer _ p info)
  unfold handleSessionComplete
  dsimp only
  split
  · exact hset
  · split
    · split
      · exact (hset' _).trans ⟨rfl, rfl⟩ (handles_removePeer _ p)
      · exact (hset' _).trans ⟨rfl, rfl⟩ (handles_connectIfInactive _ p)
    · exact hset' _

theorem tended_removePeer {refused : Bool} (hevents : m.sessionEvents p = none) :
    PeerTended (m.removePeer p) p refused := by
  refine ⟨?_, fun session => ?_, fun hne => ?_⟩
  · rw [entry_removePeer_self]
    exact fun h => absurd rfl h
  · rw [entry_removePeer_self]
    show m.sessionEvents p = _ ↔ _
    rw [hevents]
    exact ⟨nofun, nofun⟩
  · rw [pending_removePeer, Function.update_self] at hne
    exact absurd rfl hne

theorem tended_handleSessionComplete {refused : Bool} (h : PeerTended m p refused)
    (remaining : List Intent) : PeerTended (m.handleSessionComplete p remaining) p refused := by
  have hevents : Function.update m.sessionEvents p none p = none := Function.update_self _ _ _
  have hnone : ∀ session, Function.update m.sessionEvents p none p = some session ↔
      SessionState.none = .active session := by
    intro session
    rw [hevents]
    exact ⟨nofun, nofun⟩
  unfold handleSessionComplete
  dsimp only
  split
  · rename_i hpeer
    have hentry : m.entry p = {} := by rw [PeerManager.entry, hpeer]; rfl
    refine ⟨fun hc => ?_, fun session => ?_, fun hne => ?_⟩
    · exact absurd (congrArg PeerInfo.connState hentry) hc
    · show Function.update m.sessionEvents p none p = _ ↔ (m.entry p).sessionState = _
      rw [hentry]
      exact hnone session
    · exact absurd (congrArg PeerInfo.pendingIntents hentry) hne
  · rename_i info hpeer
    have hentry : m.entry p = info := by rw [PeerManager.entry, hpeer]; rfl
    have hcurrent : Current m p info.connState := hentry ▸ h.current
    split
    · split
      · exact tended_removePeer hevents
      · refine tended_connectIfInactive ?_ ?_ refused
        · rw [entry_setPeer_self]
          exact hcurrent
        · rw [entry_setPeer_self]
          exact hnone
    · rename_i hconn
      refine ⟨?_, ?_, fun _ hc _ => ?_⟩
      · rw [entry_setPeer_self]
        exact hcurrent
      · rw [entry_setPeer_self]
        exact hnone
      · rw [entry_setPeer_self] at hc
        exact absurd hc hconn

/-! ### A task has finished -/

variable {task : ConnTask}

/-- The task that has finished is not the current one. -/
theorem PeerTended.joined {refused : Bool} (h : PeerTended m p refused)
    (hnot : ¬ IsCurrent p task (m.entry p).connState) :
    PeerTended (ManagerState.joined m task) p refused where
  current hc := by
    obtain ⟨t, ht, hcurrent⟩ := h.current hc
    have hne : t ≠ task := fun heq => hnot (heq ▸ hcurrent)
    exact ⟨t, (List.mem_erase_of_ne hne).mpr ht, hcurrent⟩
  session := h.session
  pending := h.pending

theorem Tidy.joined (h : Tidy m) (task : ConnTask) : Tidy (ManagerState.joined m task) where
  ids := h.ids.sublist (List.erase_sublist.map _)
  fresh t ht := h.fresh t (List.mem_of_mem_erase ht)
  aborted := h.aborted
  running := h.running

/-- The manager goes on as if the current task of the peer, which has just ended, were
running. -/
def overlooks (m : PeerManager) (task : ConnTask) : ConnectionError → Bool
  | .locallyClosed =>
      match (m.entry task.peer).connState with
      | .establishing _ abortHandle => decide (task.id = abortHandle)
      | _ => false
  | .applicationClosed errorCode =>
      match (m.entry task.peer).connState with
      | .establishing .none abortHandle =>
          decide (errorCode = errorCodeDuplicateConn) && decide (task.id = abortHandle)
      | _ => false
  | .other => false

/-- The other node refuses our dial to the peer. -/
def refusesDial (m : PeerManager) (p : NodeId) : ManagerEvent → Bool
  | .taskJoined task (.established (.error (.applicationClosed errorCode))) _ =>
      match (m.entry p).connState with
      | .establishing (some _) _ =>
          decide (task.peer = p) && decide (errorCode = errorCodeDuplicateConn)
      | _ => false
  | _ => false

/-- A task speaks for its own peer only. -/
theorem refusesDial_of_ne {q : NodeId} (hq : q ≠ task.peer) (out : ConnStep) (setup : Bool) :
    refusesDial m q (.taskJoined task out setup) = false := by
  unfold refusesDial
  split
  · rename_i heq
    obtain ⟨rfl, -, -⟩ := ManagerEvent.taskJoined.inj heq
    split
    · simp [Ne.symm hq]
    · rfl
  · rfl

variable {info : PeerInfo} {refused : Bool}

theorem PeerTended.events_none (h : PeerTended m p refused)
    (hsession : (m.entry p).sessionState = .none) : m.sessionEvents p = none := by
  cases hevents : m.sessionEvents p with
  | none => rfl
  | some session =>
      have hactive := (h.session session).mp hevents
      rw [hsession] at hactive
      cases hactive

theorem entry_of_peers (hp : m.peers p = some info) : m.entry p = info := by
  simp [entry, hp]

theorem handles_onOther (m : PeerManager) (p : NodeId) (info : PeerInfo) :
    Handles m (onEstablishFailed.onOther m p info) p := by
  unfold onEstablishFailed.onOther
  split
  · exact handles_removePeer m p
  · exact handles_setPeer m p _

theorem handles_onEstablishFailed (m : PeerManager) (p : NodeId) (info : PeerInfo)
    (err : ConnectionError) : Handles m (m.onEstablishFailed p info err) p := by
  cases err with
  | locallyClosed => exact .refl m p
  | applicationClosed code =>
      unfold onEstablishFailed
      dsimp only
      split
      · split
        · exact handles_setPeer m p _
        · exact .refl m p
      · exact handles_onOther m p info
  | other => exact handles_onOther m p info

/-- The session of the peer is still there, or nothing is pending any more. -/
theorem tended_onOther (h : PeerTended m p refused) (hp : m.peers p = some info) (task : ConnTask)
    (refused' : Bool) :
    PeerTended (onEstablishFailed.onOther (ManagerState.joined m task) p info) p refused' := by
  have hentry := entry_of_peers hp
  unfold onEstablishFailed.onOther
  cases hsession : info.sessionState with
  | none =>
      refine tended_removePeer (m := ManagerState.joined m task) ?_
      exact h.events_none (hentry ▸ hsession)
  | active session =>
      refine ⟨?_, fun session' => ?_, fun _ _ hs => ?_⟩
      · rw [entry_setPeer_self]
        exact fun hc => absurd rfl hc
      · rw [entry_setPeer_self]
        have hiff := h.session session'
        rw [hentry, hsession] at hiff
        exact hiff
      · rw [entry_setPeer_self] at hs
        cases hs

theorem tended_onEstablishFailed (h : PeerTended m task.peer refused)
    (hp : m.peers task.peer = some info) (hkind : task.kind = .dial ∨ ∃ conn, task.kind = .accept conn)
    {err : ConnectionError} (hlooked : overlooks m task err = false) (setup : Bool) :
    PeerTended ((ManagerState.joined m task).onEstablishFailed task.peer info err) task.peer
      (refusesDial m task.peer (.taskJoined task (.established (.error err)) setup) || refused) := by
  have hentry := entry_of_peers hp
  have hweaken : ∀ b, PeerTended (ManagerState.joined m task) task.peer refused →
      PeerTended (ManagerState.joined m task) task.peer (b || refused) := by
    intro b ht
    refine ⟨ht.current, ht.session, fun hne hc hs => ?_⟩
    rw [ht.pending hne hc hs, Bool.or_true]
  -- a task that establishes is not the current one of another state
  have hother : ∀ {c}, (∀ d k, c ≠ ConnState.establishing d k) → ¬ IsCurrent task.peer task c := by
    intro c hc hcurrent
    cases c with
    | none => exact hcurrent
    | establishing d k => exact hc d k rfl
    | active k =>
        obtain ⟨-, -, conn, session, hk⟩ := hcurrent
        rw [hk] at hkind
        rcases hkind with hkind | ⟨_, hkind⟩ <;> cases hkind
    | terminating k =>
        obtain ⟨-, -, conn, hk⟩ := hcurrent
        rw [hk] at hkind
        rcases hkind with hkind | ⟨_, hkind⟩ <;> cases hkind
  cases err with
  | locallyClosed =>
      refine hweaken _ (h.joined ?_)
      unfold overlooks at hlooked
      dsimp only at hlooked
      split at hlooked
      · rename_i d k hconn
        rw [hconn]
        exact fun hcurrent => of_decide_eq_false hlooked hcurrent.1
      · rename_i hconn
        exact hother hconn
  | applicationClosed code =>
      unfold onEstablishFailed
      dsimp only
      by_cases hcode : code = errorCodeDuplicateConn
      · rw [if_pos hcode]
        split
        · rename_i d k hconn
          -- our dial is refused
          refine ⟨?_, fun session => ?_, fun _ _ _ => ?_⟩
          · rw [entry_setPeer_self]
            exact fun hc => absurd rfl hc
          · rw [entry_setPeer_self]
            have hiff := h.session session
            rw [hentry] at hiff
            exact hiff
          · rw [Bool.or_eq_true]
            refine Or.inl ?_
            unfold refusesDial
            dsimp only
            rw [hentry, hconn]
            simp [hcode]
        · rename_i hconn
          refine hweaken _ (h.joined ?_)
          unfold overlooks at hlooked
          dsimp only at hlooked
          split at hlooked
          · rename_i k hestablishing
            rw [hestablishing]
            intro hcurrent
            have hid := hcurrent.1
            simp [hcode, hid] at hlooked
          · rename_i hnone
            refine hother fun d k heq => ?_
            cases d with
            | none => exact hnone k heq
            | some d => exact hconn d k (hentry ▸ heq)
      · rw [if_neg hcode]
        exact tended_onOther h hp task _
  | other => exact tended_onOther h hp task _

/-- What a task brings is about its own peer. -/
theorem handles_handleConnOutput {out : ConnStep} {setup : Bool}
    (hout : m.handleConnOutput p out setup = .ok m') : Handles m m' p := by
  unfold handleConnOutput at hout
  cases hp : m.peers p with
  | none =>
      simp only [hp] at hout
      cases hout
  | some info =>
      simp only [hp] at hout
      cases out with
      | established res =>
          cases res with
          | error err =>
              obtain rfl := Except.ok.inj hout
              exact handles_onEstablishFailed m p info err
          | ok res =>
              change m.onEstablished p info res setup = .ok m' at hout
              unfold onEstablished at hout
              split at hout
              · cases hout
              · dsimp only at hout
                split at hout
                · obtain rfl := Except.ok.inj hout
                  have hset := handles_setPeer m p { info with pendingIntents := [] }
                  exact ⟨hset.entry, hset.events, hset.tasks, hset.aborted, hset.shuttingDown⟩
                · split at hout
                  · obtain rfl := Except.ok.inj hout
                    refine ⟨fun q hq => ?_, fun q hq => Function.update_of_ne hq _ _,
                      .inr ⟨_, rfl, rfl⟩, rfl, rfl⟩
                    rw [entry_setPeer_of_ne _ _ hq]
                    exact m.entry_setPeer_of_ne p hq _
                  · cases hout
      | done res =>
          change m.onDone p info res = .ok m' at hout
          unfold onDone at hout
          split at hout
          · split at hout
            · obtain rfl := Except.ok.inj hout
              exact handles_spawn m p _ _
            · cases hout
            · obtain rfl := Except.ok.inj hout
              exact handles_setPeer m p _
            · obtain rfl := Except.ok.inj hout
              exact handles_removePeer m p
          · cases hout
      | closed res =>
          change m.onClosed p info res = .ok m' at hout
          have hset := fun info => handles_setPeer m p info
          unfold onClosed at hout
          split at hout
          · dsimp only at hout
            split at hout
            · split at hout
              · obtain rfl := Except.ok.inj hout
                exact (hset _).trans ⟨rfl, rfl⟩ (handles_removePeer _ p)
              · obtain rfl := Except.ok.inj hout
                exact hset _
            · split at hout
              · obtain rfl := Except.ok.inj hout
                exact (hset _).trans ⟨rfl, rfl⟩ (handles_connectIfInactive _ p)
              · obtain rfl := Except.ok.inj hout
                exact (hset _).trans ⟨rfl, rfl⟩ (handles_setPeer _ p _)
          · obtain rfl := Except.ok.inj hout
            exact .refl m p
          · obtain rfl := Except.ok.inj hout
            exact .refl m p
          · cases hout

/-- The new session is the one whose events are awaited, and its channels are running. -/
theorem tended_onEstablished (hdown : m.shuttingDown = false) {res : Established} {setup : Bool}
    (h : m.onEstablished p info res setup = .ok m') (refused : Bool) :
    PeerTended m' p refused := by
  unfold onEstablished at h
  split at h
  · cases h
  · dsimp only at h
    split at h
    · rename_i hshut
      exact absurd (hdown.symm.trans hshut) Bool.false_ne_true
    · split at h
      · obtain rfl := Except.ok.inj h
        refine ⟨?_, fun session => ?_, fun _ hc _ => ?_⟩
        · rw [entry_setPeer_self]
          exact fun _ => ⟨_, current_spawn _ p _, rfl, rfl, _, _, rfl⟩
        · rw [entry_setPeer_self]
          show Function.update m.sessionEvents p (some m.nextSession) p = _ ↔
            SessionState.active m.nextSession = _
          rw [Function.update_self, Option.some_inj, SessionState.active.injEq]
        · rw [entry_setPeer_self] at hc
          cases hc
      · cases h

/-- The entry is set without a connection, and with the session as it was. -/
theorem tended_setPeer_none (hstates : ∀ session, m.sessionEvents p = some session ↔
      info.sessionState = .active session) (hconn : info.connState = .none)
    (hpending : info.pendingIntents = [] ∨ info.sessionState ≠ .none) :
    PeerTended (m.setPeer p info) p refused where
  current := by
    rw [entry_setPeer_self, hconn]
    exact fun hc => absurd rfl hc
  session := by
    rw [entry_setPeer_self]
    exact hstates
  pending hne _ hs := by
    rw [pending_setPeer, Function.update_self] at hne
    rw [entry_setPeer_self] at hs
    exact (hpending.elim hne fun h => h hs).elim

/-- The channels are done: the connection is terminated; or it has failed and the session,
if it is still there, will be complete. -/
theorem tended_onDone (h : PeerTended m p refused) (hp : m.peers p = some info)
    {res : Except Unit Connection} (task : ConnTask)
    (hdone : (ManagerState.joined m task).onDone p info res = .ok m') : PeerTended m' p refused := by
  have hentry := entry_of_peers hp
  have hstates : ∀ session, m.sessionEvents p = some session ↔
      info.sessionState = .active session := by
    rw [← hentry]
    exact h.session
  unfold onDone at hdone
  split at hdone
  · split at hdone
    · obtain rfl := Except.ok.inj hdone
      refine ⟨?_, ?_, fun _ hc _ => ?_⟩
      · rw [entry_setPeer_self]
        exact fun _ => ⟨_, current_spawn _ p _, rfl, rfl, _, rfl⟩
      · rw [entry_setPeer_self]
        exact hstates
      · rw [entry_setPeer_self] at hc
        cases hc
    · cases hdone
    · rename_i session hsession
      obtain rfl := Except.ok.inj hdone
      refine tended_setPeer_none hstates (by rfl) (.inr ?_)
      exact fun hnone => SessionState.noConfusion (hsession.symm.trans hnone)
    · rename_i hsession
      obtain rfl := Except.ok.inj hdone
      exact tended_removePeer (h.events_none (hentry ▸ hsession))
  · cases hdone

/-- The connection is closed. The manager connects again for what is pending, or aborts it. -/
theorem tended_onClosed (h : PeerTended m task.peer refused) (hp : m.peers task.peer = some info)
    (hkind : ∃ conn, task.kind = .terminate conn) {res : Except Unit Unit}
    (hclosed : (ManagerState.joined m task).onClosed task.peer info res = .ok m') :
    PeerTended m' task.peer refused := by
  obtain ⟨conn, hkind⟩ := hkind
  have hentry := entry_of_peers hp
  have hstates : ∀ session, m.sessionEvents task.peer = some session ↔
      info.sessionState = .active session := by
    rw [← hentry]
    exact h.session
  unfold onClosed at hclosed
  split at hclosed
  · dsimp only at hclosed
    split at hclosed
    · rename_i hempty
      rw [List.isEmpty_iff] at hempty
      split at hclosed
      · rename_i hsession
        obtain rfl := Except.ok.inj hclosed
        exact tended_removePeer (h.events_none (hentry ▸ hsession))
      · obtain rfl := Except.ok.inj hclosed
        exact tended_setPeer_none hstates (by rfl) (.inl hempty)
    · split at hclosed
      · obtain rfl := Except.ok.inj hclosed
        refine tended_connectIfInactive ?_ ?_ refused
        · rw [entry_setPeer_self]
          exact fun hc => absurd rfl hc
        · rw [entry_setPeer_self]
          exact hstates
      · obtain rfl := Except.ok.inj hclosed
        exact tended_setPeer_none hstates (by rfl) (.inl rfl)
  · rename_i d k hconn
    obtain rfl := Except.ok.inj hclosed
    refine h.joined ?_
    rw [hentry, hconn]
    rintro ⟨-, -, hdial | ⟨conn', haccept⟩⟩
    · rw [hkind] at hdial
      cases hdial
    · rw [hkind] at haccept
      cases haccept
  · rename_i k hconn
    obtain rfl := Except.ok.inj hclosed
    refine h.joined ?_
    rw [hentry, hconn]
    rintro ⟨-, -, conn', session, hchannels⟩
    rw [hkind] at hchannels
    cases hchannels
  · cases hclosed

/-- The output of a task, which is not an overlooked one. -/
theorem tended_handleConnOutput (h : PeerTended m task.peer refused) (htidy : Tidy m)
    {out : ConnStep} {setup : Bool} (hbrings : task.brings m out = true)
    (hlooked : ∀ err, out = .established (.error err) → overlooks m task err = false)
    (hout : (ManagerState.joined m task).handleConnOutput task.peer out setup = .ok m') :
    PeerTended m' task.peer (refusesDial m task.peer (.taskJoined task out setup) || refused) := by
  unfold handleConnOutput at hout
  cases hp : m.peers task.peer with
  | none =>
      have hp' : (ManagerState.joined m task).peers task.peer = none := hp
      simp only [hp'] at hout
      cases hout
  | some info =>
      have hp' : (ManagerState.joined m task).peers task.peer = some info := hp
      simp only [hp'] at hout
      cases out with
      | established res =>
          cases res with
          | error err =>
              obtain rfl := Except.ok.inj hout
              have hkind : task.kind = .dial ∨ ∃ conn, task.kind = .accept conn := by
                unfold ConnTask.brings at hbrings
                cases hk : task.kind with
                | dial => exact .inl rfl
                | accept conn => exact .inr ⟨conn, rfl⟩
                | channels conn session => simp [hk] at hbrings
                | terminate conn => simp [hk] at hbrings
              exact tended_onEstablishFailed h hp hkind (hlooked err rfl) setup
          | ok res => exact tended_onEstablished (m := ManagerState.joined m task) htidy.running hout _
      | done res => exact tended_onDone h hp task hout
      | closed res =>
          have hkind : ∃ conn, task.kind = .terminate conn := by
            unfold ConnTask.brings at hbrings
            cases hk : task.kind with
            | dial => simp [hk] at hbrings
            | accept conn => simp [hk] at hbrings
            | channels conn session => simp [hk] at hbrings
            | terminate conn => exact ⟨conn, rfl⟩
          exact tended_onClosed h hp hkind hout

end PeerManager

/-! ## Runs -/

/-- The manager, and the peers that have refused our dial while the manager has no
connection of theirs yet. -/
structure Watched where
  state : ManagerState
  refused : NodeId → Bool := fun _ => false

namespace Watched

open PeerManager

/-- One iteration of the loop. -/
def step (w : Watched) (e : ManagerEvent) : Option Watched :=
  (w.state.step e).map fun state =>
    { state
      refused := fun p => refusesDial w.state.manager p e ||
        (w.refused p && decide ((state.manager.entry p).connState = .none)) }

/-- A new manager. -/
def start (nodeId : NodeId) : Watched := { state := .start nodeId }

/-- No current task ends with an error that is overlooked, and nothing is shut down. -/
def regular (w : Watched) : ManagerEvent → Bool
  | .shutdown => false
  | .taskJoined task (.established (.error err)) _ => !overlooks w.state.manager task err
  | _ => true

/-- Once the peer has a connection, its refusal is over. -/
theorem forget {m : PeerManager} {p : NodeId} {b r : Bool}
    (h : PeerTended m p (b || r)) :
    PeerTended m p (b || (r && decide ((m.entry p).connState = .none))) where
  current := h.current
  session := h.session
  pending hne hc hs := by
    rw [decide_eq_true hc, Bool.and_true]
    exact h.pending hne hc hs

theorem tended_of_step {w w' : Watched} {e : ManagerEvent} (h : Tended w.state.manager w.refused)
    (hregular : w.regular e = true) (hstep : w.step e = some w') (hok : w'.state.failed = none) :
    Tended w'.state.manager w'.refused := by
  obtain ⟨s', hs', rfl⟩ := Option.map_eq_some_iff.mp hstep
  -- the handlers first, with the refusals as they were
  suffices hnext : Tended s'.manager fun p => refusesDial w.state.manager p e || w.refused p from
    ⟨hnext.tidy, fun p => forget (hnext.peers p)⟩
  unfold ManagerState.step at hs'
  dsimp only at hs'
  split at hs'
  · cases hs'
  · cases e with
    | submitIntent peer intent taken =>
        dsimp only at hs'
        split at hs'
        · cases hs'
        · obtain rfl := Option.some.inj hs'
          exact .handles h.tidy (fun q _ => h.peers q) (handles_submitIntent _ peer intent taken)
            (fun _ _ => rfl) (tended_submitIntent (h.peers peer) intent taken)
    | handleConnection peer conn intent taken =>
        dsimp only at hs'
        split at hs'
        · cases hs'
        · obtain rfl := Option.some.inj hs'
          exact .handles h.tidy (fun q _ => h.peers q)
            (handles_handleConnection _ peer conn intent taken) (fun _ _ => rfl)
            (tended_handleConnection (h.peers peer) conn intent taken)
    | shutdown => cases hregular
    | sessionComplete peer remaining =>
        dsimp only at hs'
        split at hs'
        · cases hs'
        · obtain rfl := Option.some.inj hs'
          exact .handles h.tidy (fun q _ => h.peers q)
            (handles_handleSessionComplete _ peer remaining) (fun _ _ => rfl)
            (tended_handleSessionComplete (h.peers peer) remaining)
    | taskJoined task out setup =>
        dsimp only at hs'
        split at hs'
        · rename_i hguard
          split at hs'
          · rename_i m' hout
            obtain rfl := Option.some.inj hs'
            have hlooked : ∀ err, out = .established (.error err) →
                overlooks w.state.manager task err = false := by
              rintro err rfl
              exact Bool.not_eq_true' _ ▸ hregular
            have hpeer := tended_handleConnOutput (h.peers task.peer) h.tidy hguard.2 hlooked hout
            refine .handles (h.tidy.joined task) (fun q hq => (h.peers q).joined ?_)
              (handles_handleConnOutput hout) (fun q hq => ?_) hpeer
            · exact fun hcurrent => hq hcurrent.peer.symm
            · rw [refusesDial_of_ne hq]
              rfl
          · obtain rfl := Option.some.inj hs'
            cases hok
        · cases hs'
    | taskCancelled task =>
        dsimp only at hs'
        split at hs'
        · rename_i hguard
          rw [h.tidy.aborted] at hguard
          exact absurd hguard.2 (by simp)
        · cases hs'

/-- **Someone looks after pending intents.** In every regular run, a peer with pending intents
has a running task, or a session that is not complete yet; or it has refused our dial, and
then the manager accepts its connection. -/
theorem pending_tended {nodeId : NodeId} {w : Watched}
    (h : Reachable step (fun w e => w.regular e = true) (start nodeId) w)
    (hok : w.state.failed = none) {p : NodeId} (hp : w.state.manager.pending p ≠ []) :
    (∃ t ∈ w.state.manager.connTasks, t.peer = p) ∨
      (∃ session, w.state.manager.sessionEvents p = some session) ∨
      w.refused p = true ∧ w.state.manager.acceptsConn p = true := by
  have htended : w.state.failed = none → Tended w.state.manager w.refused := by
    refine Reachable.invariant
      (P := fun w : Watched => w.state.failed = none → Tended w.state.manager w.refused) ?_ ?_ h
    · exact fun _ => tended_start nodeId _
    · intro w e w' hw hregular hstep hok'
      obtain ⟨s', hs', -⟩ := Option.map_eq_some_iff.mp hstep
      exact tended_of_step (hw (ManagerState.failed_of_step hs')) hregular hstep hok'
  have hpeer := (htended hok).peers p
  by_cases hconn : (w.state.manager.entry p).connState = .none
  · cases hsession : (w.state.manager.entry p).sessionState with
    | active session => exact .inr (.inl ⟨session, (hpeer.session session).mpr hsession⟩)
    | none =>
        refine .inr (.inr ⟨hpeer.pending hp hconn hsession, ?_⟩)
        unfold acceptsConn
        rw [hconn]
  · obtain ⟨t, ht, hcurrent⟩ := hpeer.current hconn
    exact .inl ⟨t, ht, hcurrent.peer⟩

/-- We dial, and the other node dials as well and wins. -/
def Sample.refusedDial : List ManagerEvent :=
  [.submitIntent (.ofByte 1) 1 false,
    .taskJoined ⟨0, .ofByte 1, .dial⟩
      (.established (.error (.applicationClosed errorCodeDuplicateConn))) true]

theorem pending_tended_refused :
    ∃ w, run step (start (.ofByte 0)) Sample.refusedDial = some w ∧
      ((∃ t ∈ w.state.manager.connTasks, t.peer = .ofByte 1) ∨
        (∃ session, w.state.manager.sessionEvents (.ofByte 1) = some session) ∨
        w.refused (.ofByte 1) = true ∧ w.state.manager.acceptsConn (.ofByte 1) = true) := by
  obtain ⟨w, hw⟩ : ∃ w, run step (start (.ofByte 0)) Sample.refusedDial = some w := ⟨_, rfl⟩
  have hregular : AllowedAlong step (fun w e => w.regular e = true) (start (.ofByte 0))
      Sample.refusedDial := ⟨rfl, rfl, trivial⟩
  refine ⟨w, hw, pending_tended (.of_run hw hregular) ?_ ?_⟩
  · obtain rfl := Option.some.inj hw
    rfl
  · obtain rfl := Option.some.inj hw
    exact List.cons_ne_nil 1 []

end Watched

/-! ## Errors that are overlooked -/

namespace ManagerState

open PeerManager

variable {p : NodeId} {s s' : ManagerState}

/-- The entry says that the connection of the peer is being accepted, but no task will
establish one and no session will end. -/
structure Forgotten (m : PeerManager) (p : NodeId) : Prop where
  conn : ∃ abortHandle, (m.entry p).connState = .establishing .none abortHandle
  session : (m.entry p).sessionState = .none
  events : m.sessionEvents p = none
  tasks : ∀ t ∈ m.connTasks, t.peer = p → ∃ conn, t.kind = .terminate conn

/-- The peer is forgotten, what was pending for it stays, and no task was spawned
for it. -/
structure KeepsWaiting (p : NodeId) (m m' : PeerManager) : Prop where
  forgotten : Forgotten m' p
  pending : m.pending p <+: m'.pending p
  spawned : ∀ t ∈ m'.connTasks, t.peer = p → t ∈ m.connTasks

theorem KeepsWaiting.refl {m : PeerManager} (h : Forgotten m p) : KeepsWaiting p m m :=
  ⟨h, List.prefix_refl _, fun _ ht _ => ht⟩

theorem KeepsWaiting.trans {m m' m'' : PeerManager} (h : KeepsWaiting p m m')
    (h' : KeepsWaiting p m' m'') : KeepsWaiting p m m'' :=
  ⟨h'.forgotten, h.pending.trans h'.pending,
    fun t ht hp => h.spawned t (h'.spawned t ht hp) hp⟩

/-- What does not touch the peer leaves it forgotten. -/
theorem Forgotten.mono {m m' : PeerManager} (h : Forgotten m p) (hentry : m'.entry p = m.entry p)
    (hevents : m'.sessionEvents p = m.sessionEvents p)
    (htasks : ∀ t ∈ m'.connTasks, t.peer = p → t ∈ m.connTasks) : KeepsWaiting p m m' where
  forgotten :=
    { conn := hentry ▸ h.conn
      session := hentry ▸ h.session
      events := hevents.trans h.events
      tasks := fun t ht hp => h.tasks t (htasks t ht hp) hp }
  pending := by rw [PeerManager.pending, PeerManager.pending, hentry]
  spawned := htasks

/-- The handlers of other peers do not touch the peer. -/
theorem Forgotten.handles {m m' : PeerManager} {q : NodeId} (h : Forgotten m p)
    (hh : Handles m m' q) (hq : p ≠ q) : KeepsWaiting p m m' := by
  refine h.mono (hh.entry p hq) (hh.events p hq) fun t ht hp => ?_
  rcases hh.tasks with ⟨htasks, -⟩ | ⟨kind, htasks, -⟩
  · exact htasks ▸ ht
  · rw [htasks] at ht
    rcases List.mem_append.mp ht with ht | ht
    · exact ht
    · rw [List.mem_singleton.mp ht] at hp
      exact absurd hp.symm hq

/-- The intent waits with the others. -/
theorem Forgotten.submitIntent {m : PeerManager} (h : Forgotten m p) (intent : Intent)
    (taken : Bool) : KeepsWaiting p m (m.submitIntent p intent taken) := by
  obtain ⟨abortHandle, hconn⟩ := h.conn
  have hpush : (m.entry p).pushIntent intent taken = (false, { m.entry p with
      pendingIntents := (m.entry p).pendingIntents ++ [intent] }) := by
    cases taken <;> simp [PeerInfo.pushIntent, h.session]
  unfold PeerManager.submitIntent
  rw [hpush]
  dsimp only
  rw [if_neg Bool.false_ne_true, connectIfInactive]
  simp only [entry_setPeer_self, hconn]
  refine ⟨⟨⟨abortHandle, ?_⟩, ?_, h.events, h.tasks⟩, ?_, fun _ ht _ => ht⟩
  · rw [entry_setPeer_self]
  · rw [entry_setPeer_self]
    exact h.session
  · rw [PeerManager.pending, PeerManager.pending, entry_setPeer_self]
    exact List.prefix_append _ _

/-- One step of any kind leaves a forgotten peer waiting. -/
theorem Forgotten.step (h : Forgotten s.manager p) {e : ManagerEvent} (hstep : s.step e = some s') :
    KeepsWaiting p s.manager s'.manager := by
  obtain ⟨abortHandle, hconn⟩ := h.conn
  unfold ManagerState.step at hstep
  dsimp only at hstep
  split at hstep
  · cases hstep
  · cases e with
    | submitIntent peer intent taken =>
        dsimp only at hstep
        split at hstep
        · cases hstep
        · obtain rfl := Option.some.inj hstep
          by_cases hpeer : p = peer
          · subst hpeer
            exact h.submitIntent intent taken
          · exact h.handles (handles_submitIntent _ peer intent taken) hpeer
    | handleConnection peer conn intent taken =>
        dsimp only at hstep
        split at hstep
        · cases hstep
        · obtain rfl := Option.some.inj hstep
          by_cases hpeer : p = peer
          · subst hpeer
            cases intent with
            | none => exact .refl h
            | some intent =>
                obtain ⟨m', hsame, ⟨haccepts, -⟩ | ⟨-, heq⟩⟩ :=
                  s.manager.handleConnection_cases p conn intent taken
                · rw [acceptsConn, hconn] at haccepts
                  cases haccepts
                · dsimp only
                  rw [heq]
                  refine h.mono hsame.entry_self ?_ fun t ht _ => ?_
                  · rw [hsame.sessionEvents]
                    rfl
                  · rw [hsame.connTasks] at ht
                    exact ht
          · exact h.handles (handles_handleConnection _ peer conn intent taken) hpeer
    | shutdown =>
        dsimp only at hstep
        split at hstep
        · cases hstep
        · obtain rfl := Option.some.inj hstep
          exact h.mono rfl rfl fun _ ht _ => ht
    | sessionComplete peer remaining =>
        dsimp only at hstep
        split at hstep
        · cases hstep
        · rename_i hevents
          obtain rfl := Option.some.inj hstep
          refine h.handles (handles_handleSessionComplete _ peer remaining) ?_
          rintro rfl
          exact hevents (by rw [h.events]; rfl)
    | taskJoined task out setup =>
        have hjoined : KeepsWaiting p s.manager (joined s.manager task) :=
          h.mono rfl rfl fun t ht _ => List.mem_of_mem_erase ht
        dsimp only at hstep
        split at hstep
        · rename_i hguard
          split at hstep
          · rename_i m' hout
            obtain rfl := Option.some.inj hstep
            by_cases hpeer : p = task.peer
            · -- only a task that terminates is left, and the peer connects again
              obtain ⟨conn, hkind⟩ := h.tasks task hguard.1 hpeer.symm
              subst hpeer
              have hclosed : ∃ res, out = .closed res := by
                have hbrings := hguard.2
                unfold ConnTask.brings at hbrings
                rw [hkind] at hbrings
                cases out with
                | closed res => exact ⟨res, rfl⟩
                | established res => cases hbrings
                | done res => cases hbrings
              obtain ⟨res, rfl⟩ := hclosed
              have hm' : m' = joined s.manager task := by
                unfold handleConnOutput at hout
                split at hout
                · cases hout
                · rename_i info hp
                  have hentry : s.manager.entry task.peer = info := entry_of_peers hp
                  dsimp only at hout
                  unfold onClosed at hout
                  rw [← hentry, hconn] at hout
                  exact (Except.ok.inj hout).symm
              rw [hm']
              exact hjoined
            · exact hjoined.trans
                (hjoined.forgotten.handles (handles_handleConnOutput hout) hpeer)
          · obtain rfl := Option.some.inj hstep
            exact hjoined
        · cases hstep
    | taskCancelled task =>
        dsimp only at hstep
        split at hstep
        · obtain rfl := Option.some.inj hstep
          exact h.mono rfl rfl fun t ht _ => List.mem_of_mem_erase ht
        · cases hstep

/-- The step that forgets the peer. -/
theorem forgotten_of_overlooked (hknown : s.manager.Known) {task : ConnTask} {err : ConnectionError}
    {setup : Bool}
    (haccepting : ∃ abortHandle, (s.manager.entry task.peer).connState =
      .establishing .none abortHandle)
    (hlooked : overlooks s.manager task err = true)
    (hsession : s.manager.sessionEvents task.peer = none)
    (htasks : ∀ t ∈ s.manager.connTasks.erase task, t.peer = task.peer →
      ∃ conn, t.kind = .terminate conn)
    (hstep : s.step (.taskJoined task (.established (.error err)) setup) = some s') :
    Forgotten s'.manager task.peer ∧ s'.manager.pending task.peer = s.manager.pending task.peer := by
  obtain ⟨abortHandle, hconn⟩ := haccepting
  have hforgotten : Forgotten (joined s.manager task) task.peer := by
    refine ⟨⟨abortHandle, hconn⟩, ?_, hsession, htasks⟩
    cases hstate : (s.manager.entry task.peer).sessionState with
    | none => exact hstate
    | active session =>
        have hactive := (hknown task.peer session).mpr hstate
        rw [hsession] at hactive
        cases hactive
  unfold ManagerState.step at hstep
  dsimp only at hstep
  split at hstep
  · cases hstep
  · split at hstep
    · split at hstep
      · rename_i m' hout
        obtain rfl := Option.some.inj hstep
        have hm' : m' = joined s.manager task := by
          unfold handleConnOutput at hout
          split at hout
          · cases hout
          · rename_i info hp
            have hentry : s.manager.entry task.peer = info := entry_of_peers hp
            rw [hentry] at hconn
            obtain rfl := Except.ok.inj hout
            cases err with
            | locallyClosed => rfl
            | applicationClosed code =>
                have hcode : code = errorCodeDuplicateConn := by
                  simp only [overlooks, hentry, hconn, Bool.and_eq_true, decide_eq_true_eq] at hlooked
                  exact hlooked.1
                simp only [onEstablishFailed, if_pos hcode, hconn]
            | other => cases hlooked
        rw [hm']
        exact ⟨hforgotten, rfl⟩
      · obtain rfl := Option.some.inj hstep
        exact ⟨hforgotten, rfl⟩
    · cases hstep

/-- **An overlooked error leaves the peer waiting for ever.** The current task of a peer, which
accepts its connection, ends with an error that is overlooked, while the peer has no session
and no task of another connection that could establish one. In every later run all intents
that were pending stay pending, no connection of the peer is accepted, and no task is
spawned for the peer: those that are left terminate older connections. -/
theorem overlooked_waits_forever {nodeId : NodeId} {task : ConnTask} {err : ConnectionError}
    {setup : Bool} {s₂ : ManagerState}
    (hs : Reachable ManagerState.step (fun _ _ => True) (start nodeId) s)
    (haccepting : ∃ abortHandle, (s.manager.entry task.peer).connState =
      .establishing .none abortHandle)
    (hlooked : overlooks s.manager task err = true)
    (hsession : s.manager.sessionEvents task.peer = none)
    (htasks : ∀ t ∈ s.manager.connTasks.erase task, t.peer = task.peer →
      ∃ conn, t.kind = .terminate conn)
    (hstep : s.step (.taskJoined task (.established (.error err)) setup) = some s')
    (hrun : Reachable ManagerState.step (fun _ _ => True) s' s₂) :
    s.manager.pending task.peer <+: s₂.manager.pending task.peer ∧
      s₂.manager.acceptsConn task.peer = false ∧
      ∀ t ∈ s₂.manager.connTasks, t.peer = task.peer →
        t ∈ s'.manager.connTasks ∧ ∃ conn, t.kind = .terminate conn := by
  have hknown : s.manager.Known := by
    refine Reachable.invariant (P := fun s : ManagerState => s.manager.Known) ?_ ?_ hs
    · exact fun _ _ => ⟨nofun, nofun⟩
    · exact fun _ _ _ h _ hstep => Books.known_of_step h hstep
  obtain ⟨hforgotten, hpending⟩ :=
    forgotten_of_overlooked hknown haccepting hlooked hsession htasks hstep
  have h : KeepsWaiting task.peer s'.manager s₂.manager := by
    refine Reachable.invariant
      (P := fun t : ManagerState => KeepsWaiting task.peer s'.manager t.manager) ?_ ?_ hrun
    · exact .refl hforgotten
    · intro t e t' ht _ hstep
      exact ht.trans (ht.forgotten.step hstep)
  obtain ⟨abortHandle, hconn⟩ := h.forgotten.conn
  refine ⟨hpending ▸ h.pending, ?_, fun t ht hp => ⟨h.spawned t ht hp, h.forgotten.tasks t ht hp⟩⟩
  unfold acceptsConn
  rw [hconn]

/-- A connection is accepted, and an intent comes for its peer. -/
def Sample.accepting : List ManagerEvent :=
  [.handleConnection (.ofByte 1) 5 (some 1) false, .submitIntent (.ofByte 1) 2 false]

/-- The other node closes the connection as a duplicate; then it tries again. -/
def Sample.tryAgain : List ManagerEvent :=
  [.handleConnection (.ofByte 1) 6 (some 3) false, .submitIntent (.ofByte 1) 4 false]

theorem overlooked_waits_forever_duplicate :
    ∃ s s₁ s₂, run ManagerState.step (start (.ofByte 0)) Sample.accepting = some s ∧
      s.step (.taskJoined ⟨0, .ofByte 1, .accept 5⟩
        (.established (.error (.applicationClosed errorCodeDuplicateConn))) true) = some s₁ ∧
      run ManagerState.step s₁ Sample.tryAgain = some s₂ ∧
      s.manager.pending (.ofByte 1) <+: s₂.manager.pending (.ofByte 1) ∧
      s₂.manager.acceptsConn (.ofByte 1) = false ∧
      ∀ t ∈ s₂.manager.connTasks, t.peer = .ofByte 1 →
        t ∈ s₁.manager.connTasks ∧ ∃ conn, t.kind = .terminate conn := by
  obtain ⟨s, hs⟩ : ∃ s, run ManagerState.step (start (.ofByte 0)) Sample.accepting = some s :=
    ⟨_, rfl⟩
  obtain ⟨s₁, hs₁⟩ : ∃ s₁, s.step (.taskJoined ⟨0, .ofByte 1, .accept 5⟩
      (.established (.error (.applicationClosed errorCodeDuplicateConn))) true) = some s₁ := by
    obtain rfl := Option.some.inj hs
    exact ⟨_, rfl⟩
  obtain ⟨s₂, hs₂⟩ : ∃ s₂, run ManagerState.step s₁ Sample.tryAgain = some s₂ := by
    obtain rfl := Option.some.inj hs
    obtain rfl := Option.some.inj hs₁
    exact ⟨_, rfl⟩
  refine ⟨s, s₁, s₂, hs, hs₁, hs₂, overlooked_waits_forever (Reachable.of_run_all hs) ⟨0, ?_⟩ ?_ ?_
    (fun t ht => ?_) hs₁ (Reachable.of_run_all hs₂)⟩
  · obtain rfl := Option.some.inj hs
    rfl
  · obtain rfl := Option.some.inj hs
    rfl
  · obtain rfl := Option.some.inj hs
    rfl
  · obtain rfl := Option.some.inj hs
    cases ht

end ManagerState

end IrohWillow
