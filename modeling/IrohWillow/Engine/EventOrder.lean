import IrohWillow.Engine.PeerManager
import IrohWillow.Lib.Transition

/-!
# The peer manager and the order of events

What a connection task brings names the peer, not the connection. The output of a
task that belongs to an earlier connection is taken for that of the current one, and
an entry that is removed or reset while another task of the peer is alive may not
fit the output of that task. Dials and accepted connections that finish late do no
harm as long as the peer is known; the channels of a connection, and its closing, have
to find the state that they left. In the runs where this is so, the manager does not
reach an `unreachable!` and is not ended by an unknown peer.
-/

namespace IrohWillow

namespace ManagerState

/-- No other task of the peer is alive. -/
def Alone (m : PeerManager) (task : ConnTask) : Prop :=
  ∀ t ∈ m.connTasks, t.peer = task.peer → t = task

/-- The error is not that a connection was closed as a duplicate. -/
def IsFailure (e : ConnectionError) : Prop :=
  e ≠ .locallyClosed ∧ e ≠ .applicationClosed errorCodeDuplicateConn

/-- A task that dials, or that accepts a connection. -/
def Establishes : TaskKind → Prop
  | .dial => True
  | .accept _ => True
  | .channels _ _ => False
  | .terminate _ => False

/-- The output of the task resets the connection of the peer: the other tasks of the
peer only establish connections, and there is none if the entry is removed. -/
def Resets (m : PeerManager) (task : ConnTask) (removes : Prop) : Prop :=
  (∀ t ∈ m.connTasks, t.peer = task.peer → t ≠ task → Establishes t.kind) ∧
    (removes → Alone m task)

/-- **The condition.** A connection is established when no session of an earlier one is
active and its channels are done; a task whose failure or end resets the connection of
the peer leaves only tasks that establish connections, and none when the peer is
forgotten; and there is no task when the end of a session makes the manager forget the
peer. -/
def Orderly (s : ManagerState) : ManagerEvent → Prop
  | .submitIntent _ _ _ => True
  | .handleConnection _ _ _ _ => True
  | .taskJoined task (.established (.ok _)) _ =>
      (s.manager.entry task.peer).sessionState = .none ∧
        ∀ t ∈ s.manager.connTasks, t.peer = task.peer → ∀ conn session,
          t.kind ≠ .channels conn session
  | .taskJoined task (.established (.error e)) _ => IsFailure e →
      Resets s.manager task ((s.manager.entry task.peer).sessionState = .none)
  | .taskJoined task (.done (.error _)) _ =>
      Resets s.manager task ((s.manager.entry task.peer).sessionState = .none)
  | .taskJoined task (.closed _) _ =>
      (∃ h, (s.manager.entry task.peer).connState = .terminating h) →
        Resets s.manager task ((s.manager.entry task.peer).pendingIntents = [])
  | .taskJoined _ (.done (.ok _)) _ => True
  | .shutdown => True
  | .sessionComplete peer remainingIntents =>
      (s.manager.entry peer).connState = .none →
      (s.manager.entry peer).pendingIntents ++ remainingIntents = [] →
        ∀ t ∈ s.manager.connTasks, t.peer ≠ peer
  | .taskCancelled _ => True

/-! ## The invariant -/

/-- There is no connection, or one that we dial ourselves. -/
def Unconnected : ConnState → Prop
  | .none => True
  | .establishing (some _) _ => True
  | .establishing none _ => False
  | .active _ => False
  | .terminating _ => False

/-- The entry of a peer fits its tasks and its session. -/
structure InfoInv (m : PeerManager) (p : NodeId) (info : PeerInfo) : Prop where
  idle : Unconnected info.connState → ∀ t ∈ m.connTasks, t.peer = p → Establishes t.kind
  channels : ∀ t ∈ m.connTasks, t.peer = p → ∀ conn session, t.kind = .channels conn session →
    (∃ h, info.connState = .active h) ∧
      (info.sessionState = .none ∨ info.sessionState = .active session)
  unique : ∀ t ∈ m.connTasks, t.peer = p → ∀ conn session, t.kind = .channels conn session →
    ∀ t' ∈ m.connTasks, t'.peer = p → ∀ conn' session', t'.kind = .channels conn' session' → t' = t
  session : ∀ session, info.sessionState = .active session → m.sessionEvents p = some session ∧
    ∀ h, info.connState ≠ .terminating h

/-- A peer with tasks or a session is known, and its entry fits. -/
structure PeerInv (m : PeerManager) (p : NodeId) : Prop where
  known : ∀ t ∈ m.connTasks, t.peer = p → m.peers p ≠ none
  events : ∀ session, m.sessionEvents p = some session →
    ∃ info, m.peers p = some info ∧ info.sessionState = .active session
  info : ∀ info, m.peers p = some info → InfoInv m p info

/-- **The invariant.** -/
structure Inv (m : PeerManager) : Prop where
  ids : (m.connTasks.map (·.id)).Nodup
  fresh : ∀ t ∈ m.connTasks, t.id < m.nextTask
  peers : ∀ p, PeerInv m p

variable {m m' : PeerManager} {p : NodeId}

theorem inv_start (nodeId : NodeId) : Inv (start nodeId).manager where
  ids := List.nodup_nil
  fresh t ht := by cases ht
  peers p := by
    refine ⟨fun t ht => ?_, fun session hs => ?_, fun info hi => ?_⟩
    · cases ht
    · cases hs
    · cases hi

/-- Fewer tasks fit as well. -/
theorem PeerInv.mono (h : PeerInv m p) (hpeers : m'.peers p = m.peers p)
    (hevents : m'.sessionEvents p = m.sessionEvents p)
    (htasks : ∀ t ∈ m'.connTasks, t.peer = p → t ∈ m.connTasks) : PeerInv m' p := by
  refine ⟨fun t ht hp => ?_, fun session hs => ?_, fun info hi => ?_⟩
  · rw [hpeers]
    exact h.known t (htasks t ht hp) hp
  · rw [hpeers]
    exact h.events session (hevents ▸ hs)
  · have hinfo := h.info info (hpeers ▸ hi)
    refine ⟨fun hnone t ht hp => ?_, fun t ht hp => ?_, ?_, ?_⟩
    · exact hinfo.idle hnone t (htasks t ht hp) hp
    · exact hinfo.channels t (htasks t ht hp) hp
    · intro t ht hp c s hk t' ht' hp'
      exact hinfo.unique t (htasks t ht hp) hp c s hk t' (htasks t' ht' hp') hp'
    · rw [hevents]
      exact hinfo.session

/-- An event about one peer leaves the others alone. -/
theorem Inv.of_peer (h : Inv m) (p : NodeId) (hids : (m'.connTasks.map (·.id)).Nodup)
    (hfresh : ∀ t ∈ m'.connTasks, t.id < m'.nextTask)
    (hpeers : ∀ q, q ≠ p → m'.peers q = m.peers q)
    (hevents : ∀ q, q ≠ p → m'.sessionEvents q = m.sessionEvents q)
    (htasks : ∀ t ∈ m'.connTasks, t.peer ≠ p → t ∈ m.connTasks) (hp : PeerInv m' p) : Inv m' := by
  refine ⟨hids, hfresh, fun q => ?_⟩
  by_cases hq : q = p
  · rw [hq]
    exact hp
  · exact (h.peers q).mono (hpeers q hq) (hevents q hq) fun t ht htq => htasks t ht (htq ▸ hq)

/-- Only the entries, the tasks and the sessions matter. -/
theorem Inv.congr (h : Inv m) (hpeers : m'.peers = m.peers) (htasks : m'.connTasks = m.connTasks)
    (hevents : m'.sessionEvents = m.sessionEvents) (hnext : m'.nextTask = m.nextTask) : Inv m' :=
  ⟨htasks ▸ h.ids, htasks ▸ hnext ▸ h.fresh, fun p => (h.peers p).mono (by rw [hpeers])
    (by rw [hevents]) fun t ht _ => htasks ▸ ht⟩

/-! ## The parts of the handlers -/

/-- A task is joined. -/
theorem Inv.joined (h : Inv m) (task : ConnTask) : Inv (joined m task) := by
  have hsub : (m.connTasks.erase task).Sublist m.connTasks := List.erase_sublist
  exact ⟨(hsub.map _).nodup h.ids, fun t ht => h.fresh t (hsub.subset ht),
    fun p => (h.peers p).mono rfl rfl fun t ht _ => hsub.subset ht⟩

/-- The task that was joined is not alive any more. -/
theorem Inv.mem_joined (h : Inv m) {task t : ConnTask}
    (ht : t ∈ (ManagerState.joined m task).connTasks) :
    t ∈ m.connTasks ∧ t ≠ task := by
  have hnodup : m.connTasks.Nodup := h.ids.of_map _
  have hmem := (List.Nodup.mem_erase_iff hnodup).mp ht
  exact ⟨hmem.2, hmem.1⟩

/-- The entry of a peer, known or not. -/
theorem Inv.entry (h : Inv m) (p : NodeId) : InfoInv m p (m.entry p) := by
  cases hp : m.peers p with
  | some info =>
      have hentry : m.entry p = info := by simp [PeerManager.entry, hp]
      rw [hentry]
      exact (h.peers p).info info hp
  | none =>
      have hentry : m.entry p = {} := by simp [PeerManager.entry, hp]
      have hno : ∀ t ∈ m.connTasks, t.peer ≠ p := fun t ht htp => (h.peers p).known t ht htp hp
      rw [hentry]
      refine ⟨fun _ t ht htp => ?_, fun t ht htp => ?_, fun t ht htp => ?_, fun _ hs => ?_⟩
      · exact absurd htp (hno t ht)
      · exact absurd htp (hno t ht)
      · exact absurd htp (hno t ht)
      · cases hs

/-- Set an entry that fits. -/
theorem Inv.setPeer (h : Inv m) {info : PeerInfo} (hinfo : InfoInv m p info)
    (hevents : ∀ session, m.sessionEvents p = some session → info.sessionState = .active session) :
    Inv (m.setPeer p info) := by
  have hself : (m.setPeer p info).peers p = some info := Function.update_self _ _ _
  refine h.of_peer p h.ids h.fresh (fun q hq => Function.update_of_ne hq _ _) (fun _ _ => rfl)
    (fun t ht _ => ht) ⟨fun t _ _ => ?_, fun session hs => ?_, fun info' hi => ?_⟩
  · rw [hself]
    simp
  · exact ⟨info, hself, hevents session hs⟩
  · obtain rfl := Option.some.inj (hself.symm.trans hi)
    exact ⟨hinfo.idle, hinfo.channels, hinfo.unique, hinfo.session⟩

/-- The session of a peer is that of its entry. -/
theorem Inv.session_of_events (h : Inv m) {session : SessionId}
    (hs : m.sessionEvents p = some session) : (m.entry p).sessionState = .active session := by
  obtain ⟨info, hp, hsession⟩ := (h.peers p).events session hs
  simp [PeerManager.entry, hp, hsession]

/-- Set an entry whose states are the same. -/
theorem Inv.setPeer_same (h : Inv m) {info : PeerInfo}
    (hconn : info.connState = (m.entry p).connState)
    (hsession : info.sessionState = (m.entry p).sessionState) : Inv (m.setPeer p info) := by
  have hentry := h.entry p
  refine h.setPeer ⟨?_, ?_, ?_, ?_⟩ fun session hs => ?_
  · rw [hconn]
    exact hentry.idle
  · rw [hconn, hsession]
    exact hentry.channels
  · exact hentry.unique
  · rw [hconn, hsession]
    exact hentry.session
  · rw [hsession]
    exact h.session_of_events hs

/-- Remove a peer that has no tasks and no session. -/
theorem Inv.removePeer (h : Inv m) (htasks : ∀ t ∈ m.connTasks, t.peer ≠ p)
    (hevents : m.sessionEvents p = none) : Inv (m.removePeer p) := by
  have hself : (m.removePeer p).peers p = none := Function.update_self _ _ _
  refine h.of_peer p h.ids h.fresh (fun q hq => Function.update_of_ne hq _ _) (fun _ _ => rfl)
    (fun t ht _ => ht) ⟨fun t ht htp => absurd htp (htasks t ht), fun session hs => ?_,
      fun info' hi => ?_⟩
  · cases hevents.symm.trans hs
  · cases hself.symm.trans hi

/-- A task is spawned, and the entry is set to fit it. -/
theorem Inv.spawn (h : Inv m) {kind : TaskKind} {info : PeerInfo}
    (htasks : m'.connTasks = m.connTasks ++ [⟨m.nextTask, p, kind⟩])
    (hnext : m'.nextTask = m.nextTask + 1)
    (hpeers : m'.peers = Function.update m.peers p (some info))
    (hother : ∀ q, q ≠ p → m'.sessionEvents q = m.sessionEvents q) (hinfo : InfoInv m' p info)
    (hevents : ∀ session, m'.sessionEvents p = some session → info.sessionState = .active session) :
    Inv m' := by
  have hself : m'.peers p = some info := by rw [hpeers, Function.update_self]
  refine h.of_peer p ?_ ?_ (fun q hq => ?_) hother ?_
    ⟨fun t _ _ => ?_, fun session hs => ?_, fun info' hi => ?_⟩
  · rw [htasks, List.map_append, List.nodup_append]
    refine ⟨h.ids, by simp, fun i hi j hj => ?_⟩
    obtain ⟨t, ht, rfl⟩ := List.mem_map.mp hi
    obtain rfl := List.mem_singleton.mp hj
    exact (h.fresh t ht).ne
  · intro t ht
    rw [hnext]
    rw [htasks] at ht
    rcases List.mem_append.mp ht with ht | ht
    · exact (h.fresh t ht).trans (Nat.lt_succ_self _)
    · rw [List.mem_singleton.mp ht]
      exact Nat.lt_succ_self _
  · rw [hpeers, Function.update_of_ne hq]
  · intro t ht hne
    rw [htasks] at ht
    rcases List.mem_append.mp ht with ht | ht
    · exact ht
    · rw [List.mem_singleton.mp ht] at hne
      exact absurd rfl hne
  · rw [hself]
    simp
  · exact ⟨info, hself, hevents session hs⟩
  · obtain rfl := Option.some.inj (hself.symm.trans hi)
    exact hinfo

/-- The tasks after one was spawned. -/
theorem mem_spawn {kind : TaskKind} {t : ConnTask}
    (ht : t ∈ m.connTasks ++ [⟨m.nextTask, p, kind⟩]) :
    t ∈ m.connTasks ∨ t = ⟨m.nextTask, p, kind⟩ :=
  (List.mem_append.mp ht).imp id List.mem_singleton.mp

/-- A task that establishes a connection is spawned for a peer that has no channels. -/
theorem Inv.spawn_establishing (h : Inv m) {kind : TaskKind} {info : PeerInfo}
    {ourDial : Option TaskId} (hkind : Establishes kind)
    (hnext : info.connState = .establishing ourDial m.nextTask)
    (hsession : info.sessionState = (m.entry p).sessionState)
    (hconn : ∀ k, (m.entry p).connState ≠ .active k)
    (hdial : ourDial ≠ none → (m.entry p).connState = .none) :
    Inv ((m.spawnConnTask p kind).setPeer p info) := by
  have hentry := h.entry p
  -- no task of the peer runs channels
  have hno : ∀ t ∈ m.connTasks ++ [⟨m.nextTask, p, kind⟩], t.peer = p → ∀ conn session,
      t.kind ≠ .channels conn session := by
    intro t ht htp conn session hk
    rcases mem_spawn ht with ht | rfl
    · obtain ⟨⟨k, hk⟩, -⟩ := hentry.channels t ht htp conn session hk
      exact hconn k hk
    · change kind = _ at hk
      rw [hk] at hkind
      exact hkind
  refine h.spawn rfl rfl rfl (fun _ _ => rfl) ⟨fun hfresh t ht htp => ?_,
    fun t ht htp conn session hk => ?_, fun t ht htp conn session hk => ?_, fun session hs => ?_⟩
    fun session hs => ?_
  · rcases mem_spawn ht with ht | rfl
    · -- a dial starts without a connection
      cases ourDial with
      | none =>
          rw [hnext] at hfresh
          exact hfresh.elim
      | some d =>
          refine hentry.idle ?_ t ht htp
          rw [hdial (by simp)]
          trivial
    · exact hkind
  · exact absurd hk (hno t ht htp conn session)
  · exact absurd hk (hno t ht htp conn session)
  · rw [hsession] at hs
    refine ⟨(hentry.session session hs).1, fun k hk => ?_⟩
    cases hnext.symm.trans hk
  · rw [hsession]
    exact h.session_of_events hs

/-- `connect_if_inactive`. -/
theorem Inv.connectIfInactive (h : Inv m) : Inv (m.connectIfInactive p) := by
  unfold PeerManager.connectIfInactive
  dsimp only
  split
  · rename_i hconn
    refine h.spawn_establishing trivial rfl rfl ?_ fun _ => hconn
    rw [hconn]
    simp
  · exact h.setPeer_same rfl rfl

theorem pushIntent_connState (info : PeerInfo) (intent : Intent) (taken : Bool) :
    (info.pushIntent intent taken).2.connState = info.connState ∧
      (info.pushIntent intent taken).2.sessionState = info.sessionState := by
  unfold PeerInfo.pushIntent
  split <;> exact ⟨rfl, rfl⟩

/-- The entry is what was set. -/
@[simp] theorem entry_setPeer (m : PeerManager) (p : NodeId) (info : PeerInfo) :
    (m.setPeer p info).entry p = info := by
  simp [PeerManager.entry, PeerManager.setPeer]

/-- **An intent.** -/
theorem Inv.submitIntent (h : Inv m) {intent : Intent} {taken : Bool} :
    Inv (m.submitIntent p intent taken) := by
  obtain ⟨hconn, hstate⟩ := pushIntent_connState (m.entry p) intent taken
  have hset := h.setPeer_same hconn hstate
  simp only [PeerManager.submitIntent]
  split
  · exact hset
  · exact hset.connectIfInactive

/-- A connection is accepted for a peer without channels. -/
theorem Inv.acceptConn (h : Inv m) {conn : Connection} {intent : Intent} {taken : Bool}
    (hconn : ∀ k, (m.entry p).connState ≠ .active k) :
    Inv (m.acceptConn p conn intent taken) := by
  obtain ⟨-, hstate⟩ := pushIntent_connState (m.entry p) intent taken
  exact h.spawn_establishing trivial rfl hstate hconn (by simp)

/-- **A connection.** -/
theorem Inv.handleConnection (h : Inv m) {conn : Connection} {intent : Option Intent}
    {taken : Bool} : Inv (m.handleConnection p conn intent taken) := by
  unfold PeerManager.handleConnection
  cases intent with
  | none => exact h
  | some intent =>
      have hset : Inv (m.setPeer p (m.entry p)) := h.setPeer_same rfl rfl
      dsimp only
      rw [entry_setPeer]
      cases hconn : (m.entry p).connState with
      | none =>
          refine hset.acceptConn ?_
          simp [hconn]
      | active k => exact hset.congr rfl rfl rfl rfl
      | terminating k =>
          refine hset.acceptConn ?_
          simp [hconn]
      | establishing ourDial k =>
          cases ourDial with
          | none => exact hset.congr rfl rfl rfl rfl
          | some cancelDial =>
              dsimp only
              split
              · have hcancel : Inv { m.setPeer p (m.entry p) with
                    cancelled := (m.setPeer p (m.entry p)).cancelled ++ [cancelDial] } :=
                  hset.congr rfl rfl rfl rfl
                have hsame : ({ m.setPeer p (m.entry p) with
                    cancelled := (m.setPeer p (m.entry p)).cancelled ++
                      [cancelDial] } : PeerManager).entry p = m.entry p := entry_setPeer m p _
                refine hcancel.acceptConn ?_
                simp [hsame, hconn]
              · exact hset.congr rfl rfl rfl rfl

/-- The connection of a peer is forgotten whose tasks only establish connections. -/
theorem Inv.reset (h : Inv m) (htasks : ∀ t ∈ m.connTasks, t.peer = p → Establishes t.kind)
    {info : PeerInfo} (hp : m.peers p = some info) :
    Inv (m.setPeer p { info with connState := .none }) := by
  have hinfo := (h.peers p).info info hp
  have hno : ∀ t ∈ m.connTasks, t.peer = p → ∀ conn session, t.kind ≠ .channels conn session := by
    intro t ht htp conn session hk
    have hkind := htasks t ht htp
    rw [hk] at hkind
    exact hkind
  refine h.setPeer ⟨fun _ => htasks, fun t ht htp conn session hk => ?_,
    fun t ht htp conn session hk => ?_,
    fun session hs => ⟨(hinfo.session session hs).1, by simp⟩⟩ fun session hs => ?_
  · exact absurd hk (hno t ht htp conn session)
  · exact absurd hk (hno t ht htp conn session)
  · obtain ⟨info', hp', hsession⟩ := (h.peers p).events session hs
    obtain rfl := Option.some.inj (hp.symm.trans hp')
    exact hsession

/-- A peer without a session has no session events. -/
theorem Inv.events_none (h : Inv m) {info : PeerInfo} (hp : m.peers p = some info)
    (hsession : info.sessionState = .none) : m.sessionEvents p = none := by
  cases hs : m.sessionEvents p with
  | none => rfl
  | some session =>
      obtain ⟨info', hp', hactive⟩ := (h.peers p).events session hs
      obtain rfl := Option.some.inj (hp.symm.trans hp')
      cases hsession.symm.trans hactive

/-! ## Session events -/

/-- The session of a peer is complete. -/
theorem Inv.endSession (h : Inv m) {info : PeerInfo} (hp : m.peers p = some info)
    (pending : List Intent) :
    Inv (PeerManager.setPeer { m with sessionEvents := Function.update m.sessionEvents p none } p
      { info with pendingIntents := pending, sessionState := .none }) := by
  have hinfo := (h.peers p).info info hp
  refine h.of_peer p h.ids h.fresh (fun q hq => Function.update_of_ne hq _ _)
    (fun q hq => Function.update_of_ne hq _ _) (fun t ht _ => ht)
    ⟨fun t _ _ => ?_, fun session hs => ?_, fun info' hi => ?_⟩
  · show Function.update m.peers p _ p ≠ none
    simp
  · change Function.update m.sessionEvents p none p = some session at hs
    simp at hs
  · change Function.update m.peers p _ p = some info' at hi
    rw [Function.update_self] at hi
    obtain rfl := Option.some.inj hi
    refine ⟨hinfo.idle, fun t ht htp conn session hk => ?_, hinfo.unique, fun session hs => ?_⟩
    · exact ⟨(hinfo.channels t ht htp conn session hk).1, .inl rfl⟩
    · cases hs

/-- **A session is complete.** -/
theorem Inv.handleSessionComplete (h : Inv m) (hevents : m.sessionEvents p ≠ none)
    {remaining : List Intent} (htasks : (m.entry p).connState = .none →
      (m.entry p).pendingIntents ++ remaining = [] → ∀ t ∈ m.connTasks, t.peer ≠ p) :
    Inv (m.handleSessionComplete p remaining) := by
  obtain ⟨session, hs⟩ := Option.ne_none_iff_exists'.mp hevents
  obtain ⟨info, hp, -⟩ := (h.peers p).events session hs
  have hend := h.endSession hp (info.pendingIntents ++ remaining)
  have hentry : m.entry p = info := by simp [PeerManager.entry, hp]
  rw [hentry] at htasks
  unfold PeerManager.handleSessionComplete
  simp only [hp]
  split
  · rename_i hconn
    split
    · rename_i hempty
      exact hend.removePeer (htasks hconn (List.isEmpty_iff.mp hempty)) (Function.update_self _ _ _)
    · exact hend.connectIfInactive
  · exact hend

/-! ## Tasks that finish -/

/-- The task was the only one of its peer. -/
theorem Inv.no_tasks (h : Inv m) {task : ConnTask} (halone : Alone m task) :
    ∀ t ∈ (ManagerState.joined m task).connTasks, t.peer ≠ task.peer := by
  intro t ht htp
  obtain ⟨hmem, hne⟩ := h.mem_joined ht
  exact hne (halone t hmem htp)

/-- The tasks that are left when a task resets the connection. -/
theorem Inv.establishes (h : Inv m) {task : ConnTask} {removes : Prop}
    (hresets : Resets m task removes) :
    ∀ t ∈ (ManagerState.joined m task).connTasks, t.peer = task.peer → Establishes t.kind := by
  intro t ht htp
  obtain ⟨hmem, hne⟩ := h.mem_joined ht
  exact hresets.1 t hmem htp hne

/-- **A connection was not established.** -/
theorem Inv.onEstablishFailed (h : Inv m) {task : ConnTask} {info : PeerInfo}
    (hp : m.peers task.peer = some info) {e : ConnectionError}
    (hresets : IsFailure e → Resets m task (info.sessionState = .none)) :
    Inv ((ManagerState.joined m task).onEstablishFailed task.peer info e) := by
  have hjoined := h.joined task
  have hother : IsFailure e →
      Inv (PeerManager.onEstablishFailed.onOther (ManagerState.joined m task) task.peer info) := by
    intro hfailure
    unfold PeerManager.onEstablishFailed.onOther
    split
    · rename_i hsession
      have htasks := h.no_tasks ((hresets hfailure).2 hsession)
      exact hjoined.removePeer htasks (hjoined.events_none hp hsession)
    · exact hjoined.reset (h.establishes (hresets hfailure)) hp
  unfold PeerManager.onEstablishFailed
  cases e with
  | locallyClosed => exact hjoined
  | other => exact hother ⟨by simp, by simp⟩
  | applicationClosed errorCode =>
      dsimp only
      split
      · split
        · rename_i d k hconn
          -- while we dial, all tasks establish connections
          have hinfo := (hjoined.peers task.peer).info info hp
          refine hjoined.reset (hinfo.idle ?_) hp
          rw [hconn]
          trivial
        · exact hjoined
      · rename_i hcode
        exact hother ⟨by simp, by simpa using hcode⟩

/-- **A connection is established.** -/
theorem Inv.onEstablished (h : Inv m) {task : ConnTask} {info : PeerInfo}
    (hp : m.peers task.peer = some info) (hsession : info.sessionState = .none)
    (hfree : ∀ t ∈ m.connTasks, t.peer = task.peer → ∀ conn session,
      t.kind ≠ .channels conn session) {res : Established} {setup : Bool} :
    match (ManagerState.joined m task).onEstablished task.peer info res setup with
    | .ok m' => Inv m'
    | .error e => e = .session := by
  have hjoined := h.joined task
  -- no task of the peer runs channels
  have hno : ∀ t ∈ (ManagerState.joined m task).connTasks, t.peer = task.peer →
      ∀ conn session, t.kind ≠ .channels conn session := fun t ht htp =>
    hfree t (h.mem_joined ht).1 htp
  have hentry : (ManagerState.joined m task).entry task.peer = info := by
    have hp' : (ManagerState.joined m task).peers task.peer = some info := hp
    simp [PeerManager.entry, hp']
  have htake : Inv ((ManagerState.joined m task).setPeer task.peer
      ⟨[], info.connState, .none⟩) := by
    refine hjoined.setPeer_same ?_ ?_
    · rw [hentry]
    · rw [hentry, hsession]
  simp only [PeerManager.onEstablished, hsession]
  split
  · rename_i m' hok
    split at hok
    · obtain rfl := Except.ok.inj hok
      exact (htake.congr rfl rfl rfl rfl)
    · split at hok
      · obtain rfl := Except.ok.inj hok
        refine hjoined.spawn rfl rfl (Function.update_idem _ _ _)
          (fun q hq => Function.update_of_ne hq _ _) ⟨fun hnone => hnone.elim,
            fun t ht htp conn session hk => ?_,
            fun t ht htp conn session hk t' ht' htp' c' s' hk' => ?_,
            fun session hs => ⟨?_, by simp⟩⟩ fun session hs => ?_
        · rcases mem_spawn ht with ht | rfl
          · exact absurd hk (hno t ht htp conn session)
          · obtain ⟨-, rfl⟩ := TaskKind.channels.inj hk
            exact ⟨⟨_, rfl⟩, .inr rfl⟩
        · rcases mem_spawn ht with ht | rfl
          · exact absurd hk (hno t ht htp conn session)
          · rcases mem_spawn ht' with ht' | rfl
            · exact absurd hk' (hno t' ht' htp' c' s')
            · rfl
        · obtain rfl := SessionState.active.inj hs
          exact Function.update_self _ _ _
        · simp only [PeerManager.setPeer, Function.update_self, Option.some.injEq] at hs
          rw [← hs]
          rfl
      · cases hok
  · rename_i e herr
    split at herr
    · cases herr
    · split at herr
      · cases herr
      · exact (Except.error.inj herr).symm

/-- **The channels of a connection are done.** -/
theorem Inv.onDone (h : Inv m) {task : ConnTask} (hmem : task ∈ m.connTasks) {info : PeerInfo}
    (hp : m.peers task.peer = some info) {conn : Connection} {session : SessionId}
    (hkind : task.kind = .channels conn session) {res : Except Unit Connection}
    (hclosed : ∀ c, res = .ok c → m.sessionEvents task.peer ≠ some session)
    (hresets : ∀ e, res = .error e → Resets m task (info.sessionState = .none)) :
    ∃ m', (ManagerState.joined m task).onDone task.peer info res = .ok m' ∧ Inv m' := by
  have hjoined := h.joined task
  have hinfo := (h.peers task.peer).info info hp
  obtain ⟨⟨k, hconn⟩, hstate⟩ := hinfo.channels task hmem rfl conn session hkind
  -- the task was the only one that runs channels
  have hno : ∀ t ∈ (ManagerState.joined m task).connTasks, t.peer = task.peer →
      ∀ conn session, t.kind ≠ .channels conn session := by
    intro t ht htp c s hk
    obtain ⟨ht, hne⟩ := h.mem_joined ht
    exact hne (hinfo.unique task hmem rfl conn session hkind t ht htp c s hk)
  unfold PeerManager.onDone
  rw [hconn]
  cases res with
  | error e =>
      cases hs : info.sessionState with
      | none =>
          have htasks := h.no_tasks ((hresets e rfl).2 hs)
          exact ⟨_, rfl, hjoined.removePeer htasks (hjoined.events_none hp hs)⟩
      | active session' =>
          refine ⟨_, rfl, ?_⟩
          have hreset := hjoined.reset (h.establishes (hresets e rfl)) hp
          rwa [hs] at hreset
  | ok c =>
      have hsession : info.sessionState = .none := by
        rcases hstate with hnone | hactive
        · exact hnone
        · exact absurd (hinfo.session session hactive).1 (hclosed c rfl)
      rw [hsession]
      refine ⟨_, rfl, hjoined.spawn rfl rfl rfl (fun _ _ => rfl) ⟨fun hnone => hnone.elim,
        fun t ht htp conn' session' hk => ?_, fun t ht htp conn' session' hk => ?_,
        fun session' hs => ?_⟩ fun session' hs => ?_⟩
      · rcases mem_spawn ht with ht | rfl
        · exact absurd hk (hno t ht htp conn' session')
        · cases hk
      · rcases mem_spawn ht with ht | rfl
        · exact absurd hk (hno t ht htp conn' session')
        · cases hk
      · cases hs
      · cases (hjoined.events_none hp hsession).symm.trans hs

/-- **A connection is closed.** -/
theorem Inv.onClosed (h : Inv m) {task : ConnTask} (hmem : task ∈ m.connTasks) {info : PeerInfo}
    (hp : m.peers task.peer = some info) {conn : Connection} (hkind : task.kind = .terminate conn)
    {res : Except Unit Unit} (hresets : (∃ k, info.connState = .terminating k) →
      Resets m task (info.pendingIntents = [])) :
    ∃ m', (ManagerState.joined m task).onClosed task.peer info res = .ok m' ∧ Inv m' := by
  have hjoined := h.joined task
  have hinfo := (h.peers task.peer).info info hp
  unfold PeerManager.onClosed
  cases hconn : info.connState with
  | none =>
      -- without a connection there is none to close
      have hestablishes := hinfo.idle (by rw [hconn]; trivial) task hmem rfl
      rw [hkind] at hestablishes
      exact hestablishes.elim
  | establishing ourDial k => exact ⟨_, rfl, hjoined⟩
  | active k => exact ⟨_, rfl, hjoined⟩
  | terminating k =>
      have hsession : info.sessionState = .none := by
        cases hs : info.sessionState with
        | none => rfl
        | active session => exact absurd hconn ((hinfo.session session hs).2 k)
      have hevents := hjoined.events_none hp hsession
      have hreset := hjoined.reset (h.establishes (hresets ⟨k, hconn⟩)) hp
      dsimp only
      split
      · rename_i hempty
        have htasks := h.no_tasks ((hresets ⟨k, hconn⟩).2 (List.isEmpty_iff.mp hempty))
        rw [hsession] at hreset ⊢
        exact ⟨_, rfl, hreset.removePeer htasks hevents⟩
      · cases res with
        | ok u => exact ⟨_, rfl, hreset.connectIfInactive⟩
        | error e =>
            refine ⟨_, rfl, hreset.setPeer_same ?_ ?_⟩
            · rw [entry_setPeer]
              rfl
            · rw [entry_setPeer]
              rfl

/-! ## Whole runs -/

/-- A task is joined, and its output handled. -/
theorem Inv.handleConnOutput (h : Inv m) {task : ConnTask} (hmem : task ∈ m.connTasks)
    {out : ConnStep} {setup : Bool} (hbrings : task.brings m out = true)
    (horderly : Orderly ⟨m, none⟩ (.taskJoined task out setup)) :
    match (ManagerState.joined m task).handleConnOutput task.peer out setup with
    | .ok m' => Inv m'
    | .error e => e = .session := by
  obtain ⟨info, hp⟩ := Option.ne_none_iff_exists'.mp ((h.peers task.peer).known task hmem rfl)
  have hp' : (ManagerState.joined m task).peers task.peer = some info := hp
  have hentry : m.entry task.peer = info := by simp [PeerManager.entry, hp]
  unfold PeerManager.handleConnOutput
  rw [hp']
  cases out with
  | established res =>
      cases res with
      | error e =>
          refine h.onEstablishFailed hp fun hfailure => ?_
          rw [← hentry]
          exact horderly hfailure
      | ok res =>
          obtain ⟨hsession, hfree⟩ := horderly
          rw [hentry] at hsession
          exact h.onEstablished hp hsession hfree
  | done res =>
      -- only a task of the channels ends with `done`, and then its session has ended
      have hkind : ∃ conn session, task.kind = .channels conn session ∧
          ∀ c, res = .ok c → m.sessionEvents task.peer ≠ some session := by
        cases hk : task.kind with
        | dial => simp [ConnTask.brings, hk] at hbrings
        | accept conn => simp [ConnTask.brings, hk] at hbrings
        | terminate conn => simp [ConnTask.brings, hk] at hbrings
        | channels conn session =>
            refine ⟨conn, session, rfl, ?_⟩
            rintro c rfl
            simp only [ConnTask.brings, hk, Bool.and_eq_true, decide_eq_true_eq] at hbrings
            exact hbrings.2
      obtain ⟨conn, session, hkind, hclosed⟩ := hkind
      have hresets : ∀ e, res = .error e → Resets m task (info.sessionState = .none) := by
        rintro e rfl
        rw [← hentry]
        exact horderly
      obtain ⟨m', hok, hinv⟩ := h.onDone hmem hp hkind hclosed hresets
      dsimp only
      rw [hok]
      exact hinv
  | closed res =>
      have hkind : ∃ conn, task.kind = .terminate conn := by
        cases hk : task.kind with
        | dial => simp [ConnTask.brings, hk] at hbrings
        | accept conn => simp [ConnTask.brings, hk] at hbrings
        | channels conn session => simp [ConnTask.brings, hk] at hbrings
        | terminate conn => exact ⟨conn, rfl⟩
      obtain ⟨conn, hkind⟩ := hkind
      have hresets : (∃ k, info.connState = .terminating k) →
          Resets m task (info.pendingIntents = []) := by
        rw [← hentry]
        exact horderly
      obtain ⟨m', hok, hinv⟩ := h.onClosed hmem hp hkind hresets
      dsimp only
      rw [hok]
      exact hinv

/-- The manager runs, or was ended by an error of a session. -/
def Survives (s : ManagerState) : Prop :=
  (s.failed = none ∧ Inv s.manager) ∨ s.failed = some .session

/-- **One event.** -/
theorem Survives.step {s s' : ManagerState} {e : ManagerEvent} (h : s.Survives)
    (horderly : s.Orderly e) (hstep : s.step e = some s') : s'.Survives := by
  rcases h with ⟨hfailed, hinv⟩ | hfailed
  · unfold ManagerState.step at hstep
    rw [hfailed] at hstep
    cases e with
    | submitIntent peer intent taken =>
        dsimp only at hstep
        split at hstep
        · cases hstep
        · obtain rfl := Option.some.inj hstep
          exact .inl ⟨rfl, hinv.submitIntent⟩
    | handleConnection peer conn intent taken =>
        dsimp only at hstep
        split at hstep
        · cases hstep
        · obtain rfl := Option.some.inj hstep
          exact .inl ⟨rfl, hinv.handleConnection⟩
    | shutdown =>
        dsimp only at hstep
        split at hstep
        · cases hstep
        · obtain rfl := Option.some.inj hstep
          exact .inl ⟨rfl, hinv.congr rfl rfl rfl rfl⟩
    | sessionComplete peer remaining =>
        dsimp only at hstep
        split at hstep
        · cases hstep
        · rename_i hevents
          obtain rfl := Option.some.inj hstep
          exact .inl ⟨rfl, hinv.handleSessionComplete (by simpa using hevents) horderly⟩
    | taskCancelled task =>
        dsimp only at hstep
        split at hstep
        · obtain rfl := Option.some.inj hstep
          exact .inl ⟨rfl, hinv.joined task⟩
        · cases hstep
    | taskJoined task out setup =>
        dsimp only at hstep
        split at hstep
        · rename_i hcond
          have hout := @Inv.handleConnOutput _ hinv task hcond.1 out setup hcond.2 horderly
          split at hstep
          · rename_i m' hok
            obtain rfl := Option.some.inj hstep
            rw [hok] at hout
            exact .inl ⟨rfl, hout⟩
          · rename_i err herr
            obtain rfl := Option.some.inj hstep
            rw [herr] at hout
            exact .inr (congrArg some hout)
        · cases hstep
  · unfold ManagerState.step at hstep
    rw [hfailed] at hstep
    cases hstep

end ManagerState

end IrohWillow
