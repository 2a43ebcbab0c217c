import IrohWillow.Engine.EventOrder
import IrohWillow.Lib.Transition

/-!
# Two nodes that dial each other

Two peer managers and the network between them. Each node dials the other at most
once; an attempt arrives at any time after it was made, or never, and a task learns
at any time that its connection was closed. There are no other failures: every
attempt that arrives is taken to the accept handler, which has an intent for it, the
handshake of an accepted connection succeeds, and a session that is established
keeps its connection.

The run is in one of three phases: nothing has been accepted, or the connection of
the node with the smaller id was, or that of the node with the larger id.
-/

namespace IrohWillow

/-- The two nodes: `large` is the one with the larger id. -/
inductive Side where
  | small
  | large
  deriving DecidableEq, Repr

namespace Side

def other : Side → Side
  | small => large
  | large => small

/-- The connection that the node dials. -/
def conn : Side → Connection
  | small => 0
  | large => 1

@[simp] theorem other_small : small.other = large := rfl

@[simp] theorem other_large : large.other = small := rfl

end Side

/-- The two managers, which nodes have dialed, whose attempt has arrived, and the
connections that each node has established. -/
structure DialPair where
  manager : Side → ManagerState
  dialed : Side → Bool := fun _ => false
  arrived : Side → Bool := fun _ => false
  established : Side → List Established := fun _ => []

/-- What happens next. -/
inductive DialAction where
  /-- An intent is submitted at the node, which may make it dial. -/
  | submitIntent (n : Side) (intent : Intent) (taken : Bool)
  /-- The attempt of the node arrives at the other. -/
  | arrive (n : Side) (intent : Intent) (taken : Bool)
  /-- A task of the node that establishes a connection finishes. -/
  | join (n : Side) (task : ConnTask) (res : Except ConnectionError Established)

namespace DialPair

/-- The attempt of the node was accepted by the other. -/
def accepted (s : DialPair) (n : Side) : Bool :=
  s.arrived n && (s.manager n.other).manager.closedConns.all fun c => decide (c.1 ≠ n.conn)

/-- What the network lets a task bring. A dial succeeds when the other node has accepted
it, ends as closed by us when we have cancelled it, and as closed by the other node with
the code the other node has given. What was accepted is closed only when its dial is
cancelled. -/
def brings (s : DialPair) (n : Side) (task : ConnTask) : Except ConnectionError Established → Bool
  | .ok res =>
      match task.kind with
      | .dial => decide (res = ⟨.alfie, n.conn⟩) && s.accepted n
      | .accept conn => decide (res = ⟨.betty, conn⟩)
      | _ => false
  | .error .locallyClosed =>
      decide (task.kind = .dial) && decide (task.id ∈ (s.manager n).manager.cancelled)
  | .error (.applicationClosed code) =>
      match task.kind with
      | .dial => (s.manager n.other).manager.closedConns.any fun c =>
          decide (c.1 = n.conn) && decide (c.2.1 = code)
      | .accept _ => decide (code = errorCodeDuplicateConn) &&
          !(s.manager n.other).manager.cancelled.isEmpty
      | _ => false
  | .error .other => false

/-- What is established when a task of the node has finished. -/
def record (s : DialPair) (n : Side) : Except ConnectionError Established → Side → List Established
  | .ok e => Function.update s.established n (s.established n ++ [e])
  | .error _ => s.established

variable (ids : Side → NodeId)

/-- One step; `none` when it is not possible. A second dial is not made. -/
def step (s : DialPair) : DialAction → Option DialPair
  | .submitIntent n intent taken =>
      ((s.manager n).step (.submitIntent (ids n.other) intent taken)).bind fun m =>
        let dials := decide ((s.manager n).manager.nextTask < m.manager.nextTask)
        if dials && s.dialed n then none
        else some { s with
          manager := Function.update s.manager n m
          dialed := Function.update s.dialed n (dials || s.dialed n) }
  | .arrive n intent taken =>
      if s.dialed n && !s.arrived n then
        ((s.manager n.other).step (.handleConnection (ids n) n.conn (some intent) taken)).map
          fun m => { s with
            manager := Function.update s.manager n.other m
            arrived := Function.update s.arrived n true }
      else none
  | .join n task res =>
      if s.brings n task res then
        ((s.manager n).step (.taskJoined task (.established res) true)).map fun m => { s with
          manager := Function.update s.manager n m
          established := s.record n res }
      else none

/-- Two new managers. -/
def start : DialPair where
  manager n := ManagerState.start (ids n)

/-- The connection that the node dials was closed by the duplicate rule: by the other
node when it arrived, or by the node itself, which has cancelled its dial. -/
def ClosedAsDuplicate (s : DialPair) (n : Side) : Prop :=
  (∃ reason, (n.conn, errorCodeDuplicateConn, reason) ∈
    (s.manager n.other).manager.closedConns) ∨ (s.manager n).manager.cancelled ≠ []

/-- Every attempt has arrived, and no task establishes a connection. -/
def Settled (s : DialPair) : Prop :=
  ∀ n, s.dialed n = s.arrived n ∧
    ∀ t ∈ (s.manager n).manager.connTasks, t.kind ≠ .dial ∧ ∀ conn, t.kind ≠ .accept conn

/-- **One connection.** -/
structure Resolved (s : DialPair) : Prop where
  /-- Neither manager has failed. -/
  running : ∀ n, (s.manager n).failed = none
  /-- A node establishes one connection at most, -/
  once : ∀ n, (s.established n).length ≤ 1
  /-- and both nodes the same one, -/
  same : ∀ n n', ∀ e ∈ s.established n, ∀ e' ∈ s.established n', e.conn = e'.conn
  /-- as Alfie the one they have dialed, as Betty the one they have accepted; -/
  roles : ∀ n, ∀ e ∈ s.established n, e = ⟨.alfie, n.conn⟩ ∨ e = ⟨.betty, n.other.conn⟩
  /-- it is not closed as a duplicate, -/
  kept : ∀ d, s.ClosedAsDuplicate d → ∀ n, ∀ e ∈ s.established n, e.conn ≠ d.conn
  /-- and never are both. -/
  notBoth : ¬ ∀ n, s.ClosedAsDuplicate n
  /-- When both have dialed, it is the one that the node with the larger id dials. -/
  larger : (∀ n, s.dialed n = true) → ∀ n, ∀ e ∈ s.established n, e.conn = Side.large.conn
  /-- In the end there is one, if a node has dialed. -/
  settled : s.Settled → (∃ n, s.dialed n = true) → ∃ d,
    s.established d = [⟨.alfie, d.conn⟩] ∧ s.established d.other = [⟨.betty, d.conn⟩]

end DialPair

/-! ## One manager -/

/-- What a manager has for a peer: the state of the connection and of the session, the
tasks, the dials it has cancelled and the connections it has closed. -/
structure PeerView where
  conn : ConnState := .none
  session : SessionState := .none
  tasks : List ConnTask := []
  cancelled : List TaskId := []
  closed : List (Connection × Nat × String) := []

namespace PeerManager

/-- The manager of `id` takes events, and this is what it has for the peer `p`. -/
structure Shows (m : PeerManager) (id p : NodeId) (v : PeerView) : Prop where
  accepting : m.shuttingDown = false
  nodeId : m.nodeId = id
  known : v.tasks ≠ [] → m.peers p ≠ none
  conn : (m.entry p).connState = v.conn
  session : (m.entry p).sessionState = v.session
  tasks : m.connTasks = v.tasks
  cancelled : m.cancelled = v.cancelled
  closed : m.closedConns = v.closed

variable {m : PeerManager} {id p : NodeId} {v : PeerView}

@[simp] theorem setPeer_nextTask (info : PeerInfo) : (m.setPeer p info).nextTask = m.nextTask := rfl

@[simp] theorem setPeer_nodeId (info : PeerInfo) : (m.setPeer p info).nodeId = m.nodeId := rfl

@[simp] theorem setPeer_shuttingDown (info : PeerInfo) :
    (m.setPeer p info).shuttingDown = m.shuttingDown := rfl

@[simp] theorem setPeer_nextSession (info : PeerInfo) :
    (m.setPeer p info).nextSession = m.nextSession := rfl

/-- The entry of the peer is replaced. -/
theorem Shows.setPeer (h : Shows m id p v) (info : PeerInfo) :
    Shows (m.setPeer p info) id p { v with conn := info.connState, session := info.sessionState } where
  accepting := h.accepting
  nodeId := h.nodeId
  known _ := by simp [PeerManager.setPeer]
  conn := by simp
  session := by simp
  tasks := h.tasks
  cancelled := h.cancelled
  closed := h.closed

/-- The entry is replaced by one with the same states. -/
theorem Shows.setPeer_same (h : Shows m id p v) {info : PeerInfo} (hconn : info.connState = v.conn)
    (hsession : info.sessionState = v.session) : Shows (m.setPeer p info) id p v := by
  have := h.setPeer info
  rwa [hconn, hsession] at this

/-- A task is spawned, and the entry replaced. -/
theorem Shows.spawnConnTask (h : Shows m id p v) (kind : TaskKind) (info : PeerInfo) :
    Shows ((m.spawnConnTask p kind).setPeer p info) id p
      { v with
        conn := info.connState
        session := info.sessionState
        tasks := v.tasks ++ [⟨m.nextTask, p, kind⟩] } where
  accepting := h.accepting
  nodeId := h.nodeId
  known _ := by simp [PeerManager.setPeer]
  conn := by simp
  session := by simp
  tasks := by
    show m.connTasks ++ _ = _
    rw [h.tasks]
  cancelled := h.cancelled
  closed := h.closed

theorem Shows.closeConn (h : Shows m id p v) (conn : Connection) (code : Nat) (reason : String) :
    Shows (m.closeConn conn code reason) id p
      { v with closed := v.closed ++ [(conn, code, reason)] } where
  accepting := h.accepting
  nodeId := h.nodeId
  known := h.known
  conn := h.conn
  session := h.session
  tasks := h.tasks
  cancelled := h.cancelled
  closed := by
    show m.closedConns ++ _ = _
    rw [h.closed]

/-- A dial is cancelled. -/
theorem Shows.cancelDial (h : Shows m id p v) (dial : TaskId) :
    Shows { m with cancelled := m.cancelled ++ [dial] } id p
      { v with cancelled := v.cancelled ++ [dial] } where
  accepting := h.accepting
  nodeId := h.nodeId
  known := h.known
  conn := h.conn
  session := h.session
  tasks := h.tasks
  cancelled := by rw [h.cancelled]
  closed := h.closed

/-- A task has finished. -/
theorem Shows.joined (h : Shows m id p v) (task : ConnTask) :
    Shows (ManagerState.joined m task) id p { v with tasks := v.tasks.erase task } where
  accepting := h.accepting
  nodeId := h.nodeId
  known hne := h.known fun hnil => hne (by simp [hnil])
  conn := h.conn
  session := h.session
  tasks := by
    show m.connTasks.erase task = _
    rw [h.tasks]
  cancelled := h.cancelled
  closed := h.closed

/-! ### Intents -/

theorem connectIfInactive_none (h : (m.entry p).connState = .none) :
    m.connectIfInactive p = (m.spawnConnTask p .dial).setPeer p
      { m.entry p with connState := .establishing (some m.nextTask) m.nextTask } := by
  simp [connectIfInactive, h]

theorem connectIfInactive_busy (h : (m.entry p).connState ≠ .none) :
    m.connectIfInactive p = m.setPeer p (m.entry p) := by
  simp only [connectIfInactive]

/-- A new intent for a peer without a connection and a session: it is dialed. -/
theorem Shows.submitIntent_idle {tasks : List ConnTask} {cancelled : List TaskId}
    {closed : List (Connection × Nat × String)}
    (h : Shows m id p ⟨.none, .none, tasks, cancelled, closed⟩) (intent : Intent) (taken : Bool) :
    (m.submitIntent p intent taken).nextTask = m.nextTask + 1 ∧
      Shows (m.submitIntent p intent taken) id p ⟨.establishing (some m.nextTask) m.nextTask, .none,
        tasks ++ [⟨m.nextTask, p, .dial⟩], cancelled, closed⟩ := by
  have hpush : ((m.entry p).pushIntent intent taken).1 = false := by
    unfold PeerInfo.pushIntent
    rw [show (m.entry p).sessionState = .none from h.session]
  obtain ⟨hc, hs⟩ := ManagerState.pushIntent_connState (m.entry p) intent taken
  have hset := h.setPeer_same (hc.trans h.conn) (hs.trans h.session)
  have hsubmit : m.submitIntent p intent taken =
      (m.setPeer p ((m.entry p).pushIntent intent taken).2).connectIfInactive p := by
    simp [submitIntent, hpush]
  rw [hsubmit, connectIfInactive_none hset.conn]
  refine ⟨rfl, ?_⟩
  have hspawn := hset.spawnConnTask .dial
    { (m.setPeer p ((m.entry p).pushIntent intent taken).2).entry p with
      connState := .establishing (some m.nextTask) m.nextTask }
  simpa [hs, h.session] using hspawn

/-- An intent for a peer that is dialed, accepted or connected makes no dial. -/
theorem Shows.submitIntent_busy (h : Shows m id p v) (hconn : v.conn ≠ .none) (intent : Intent)
    (taken : Bool) : (m.submitIntent p intent taken).nextTask = m.nextTask ∧
      Shows (m.submitIntent p intent taken) id p v := by
  obtain ⟨hc, hs⟩ := ManagerState.pushIntent_connState (m.entry p) intent taken
  have hset := h.setPeer_same (hc.trans h.conn) (hs.trans h.session)
  simp only [submitIntent]
  split
  · exact ⟨rfl, hset⟩
  · rw [connectIfInactive_busy (by rw [hset.conn]; exact hconn)]
    exact ⟨rfl, hset.setPeer_same hset.conn hset.session⟩

/-! ### Attempts that arrive -/

variable (conn : Connection) (intent : Intent) (taken : Bool)

/-- The connection is accepted. -/
theorem Shows.acceptConn (h : Shows m id p v) :
    Shows (m.acceptConn p conn intent taken) id p
      { v with
        conn := .establishing none m.nextTask
        tasks := v.tasks ++ [⟨m.nextTask, p, .accept conn⟩] } := by
  obtain ⟨-, hs⟩ := ManagerState.pushIntent_connState (m.entry p) intent taken
  have hspawn := h.spawnConnTask (.accept conn)
    { ((m.entry p).pushIntent intent taken).2 with connState := .establishing none m.nextTask }
  simpa [PeerManager.acceptConn, hs, h.session] using hspawn

/-- A connection that arrives when there is none is accepted. -/
theorem Shows.handleConnection_none (h : Shows m id p v) (hconn : v.conn = .none) :
    Shows (m.handleConnection p conn (some intent) taken) id p
      { v with
        conn := .establishing none m.nextTask
        tasks := v.tasks ++ [⟨m.nextTask, p, .accept conn⟩] } := by
  have hset := h.setPeer_same h.conn h.session
  have haccept := hset.acceptConn conn intent taken
  simpa [handleConnection, h.conn, hconn] using haccept

/-- The node has the smaller id: it cancels its dial and accepts. -/
theorem Shows.handleConnection_yields (h : Shows m id p v) (hlt : id < p) {dial abort : TaskId}
    (hconn : v.conn = .establishing (some dial) abort) :
    Shows (m.handleConnection p conn (some intent) taken) id p
      { v with
        conn := .establishing none m.nextTask
        tasks := v.tasks ++ [⟨m.nextTask, p, .accept conn⟩]
        cancelled := v.cancelled ++ [dial] } := by
  have hset := (h.setPeer_same h.conn h.session).cancelDial dial
  have haccept := hset.acceptConn conn intent taken
  simpa [handleConnection, h.conn, hconn, h.nodeId, hlt] using haccept

/-- The node has the larger id: it closes the connection. -/
theorem Shows.handleConnection_insists (h : Shows m id p v) (hlt : ¬ id < p)
    {dial abort : TaskId} (hconn : v.conn = .establishing (some dial) abort) :
    Shows (m.handleConnection p conn (some intent) taken) id p
      { v with closed := v.closed ++
          [(conn, errorCodeDuplicateConn, "duplicate-our-dial-wins")] } := by
  have hset := (h.setPeer_same h.conn h.session).closeConn conn errorCodeDuplicateConn
    "duplicate-our-dial-wins"
  simpa [handleConnection, h.conn, hconn, h.nodeId, hlt] using hset

/-- A connection that arrives when there is an active one is closed. -/
theorem Shows.handleConnection_active (h : Shows m id p v) {abort : TaskId}
    (hconn : v.conn = .active abort) :
    Shows (m.handleConnection p conn (some intent) taken) id p
      { v with closed := v.closed ++
          [(conn, errorCodeDuplicateConn, "duplicate-already-active")] } := by
  have hset := (h.setPeer_same h.conn h.session).closeConn conn errorCodeDuplicateConn
    "duplicate-already-active"
  simpa [handleConnection, h.conn, hconn] using hset

/-! ### Tasks that finish -/

/-- A connection state after the news that our connection was a duplicate. -/
def released : ConnState → ConnState
  | .establishing (some _) _ => .none
  | state => state

theorem Shows.peer_eq (h : Shows m id p v) (hne : v.tasks ≠ []) : m.peers p = some (m.entry p) := by
  obtain ⟨info, hinfo⟩ := Option.ne_none_iff_exists'.mp (h.known hne)
  simp [entry, hinfo]

/-- What a task brings is taken to the entry of its peer. -/
theorem Shows.handleConnOutput (h : Shows m id p v) (hne : v.tasks ≠ []) (task : ConnTask)
    (out : ConnStep) : (ManagerState.joined m task).handleConnOutput p out true =
      match out with
      | .established (.error err) =>
          .ok ((ManagerState.joined m task).onEstablishFailed p (m.entry p) err)
      | .established (.ok res) => (ManagerState.joined m task).onEstablished p (m.entry p) res true
      | .done res => (ManagerState.joined m task).onDone p (m.entry p) res
      | .closed res => (ManagerState.joined m task).onClosed p (m.entry p) res := by
  have hpeer : (ManagerState.joined m task).peers p = some (m.entry p) := h.peer_eq hne
  cases out with
  | established res => cases res <;> simp only [PeerManager.handleConnOutput, hpeer]
  | done res => simp only [PeerManager.handleConnOutput, hpeer]
  | closed res => simp only [PeerManager.handleConnOutput, hpeer]

/-- The channels of the connection run for a new session. -/
theorem Shows.onEstablished (h : Shows m id p v) {info : PeerInfo}
    (hsession : info.sessionState = .none) (res : Established) :
    ∃ m' session, m.onEstablished p info res true = .ok m' ∧ Shows m' id p
      { v with
        conn := .active m.nextTask
        session := .active session
        tasks := v.tasks ++ [⟨m.nextTask, p, .channels res.conn session⟩] } := by
  simp only [PeerManager.onEstablished, hsession, setPeer_shuttingDown, h.accepting,
    Bool.false_eq_true, if_false, if_true]
  refine ⟨_, m.nextSession, rfl, h.accepting, h.nodeId, fun _ => ?_, ?_, ?_, ?_, h.cancelled,
    h.closed⟩
  · simp [PeerManager.setPeer]
  · simp
  · simp
  · show m.connTasks ++ _ = _
    rw [h.tasks]
    rfl

/-- A connection is established. -/
theorem Shows.join_ok (h : Shows m id p v) (hne : v.tasks ≠ []) (hsession : v.session = .none)
    (task : ConnTask) (res : Established) :
    ∃ m' session, (ManagerState.joined m task).handleConnOutput p (.established (.ok res)) true =
      .ok m' ∧ Shows m' id p
        { v with
          conn := .active m.nextTask
          session := .active session
          tasks := v.tasks.erase task ++ [⟨m.nextTask, p, .channels res.conn session⟩] } := by
  rw [h.handleConnOutput hne]
  exact (h.joined task).onEstablished (h.session.trans hsession) res

/-- A dial that was cancelled has finished. -/
theorem Shows.join_locallyClosed (h : Shows m id p v) (hne : v.tasks ≠ []) (task : ConnTask) :
    ∃ m', (ManagerState.joined m task).handleConnOutput p
      (.established (.error .locallyClosed)) true = .ok m' ∧
      Shows m' id p { v with tasks := v.tasks.erase task } :=
  ⟨_, h.handleConnOutput hne task _, h.joined task⟩

/-- A connection was closed by the other node as a duplicate. -/
theorem Shows.join_duplicate (h : Shows m id p v) (hne : v.tasks ≠ []) (task : ConnTask) :
    ∃ m', (ManagerState.joined m task).handleConnOutput p
      (.established (.error (.applicationClosed errorCodeDuplicateConn))) true = .ok m' ∧
      Shows m' id p { v with conn := released v.conn, tasks := v.tasks.erase task } := by
  have hj := h.joined task
  refine ⟨_, h.handleConnOutput hne task _, ?_⟩
  simp only [PeerManager.onEstablishFailed, if_true]
  split
  · rename_i dial abort hconn
    have hset := hj.setPeer { m.entry p with connState := .none }
    rw [h.conn] at hconn
    simpa [released, hconn, h.session] using hset
  · rename_i hconn
    have hsame : released v.conn = v.conn := by
      unfold released
      split
      · rename_i dial abort hv
        exact absurd (h.conn.trans hv) (hconn _ _)
      · rfl
    rw [hsame]
    exact hj

end PeerManager

/-! ## One node of the pair -/

/-- The manager has not failed, and this is what it has for its peer. -/
structure ManagerState.Shows (s : ManagerState) (id p : NodeId) (v : PeerView) : Prop where
  running : s.failed = none
  manager : s.manager.Shows id p v

namespace DialPair

variable (ids : Side → NodeId)

/-- What the node has for the other. -/
def Shows (s : DialPair) (n : Side) (v : PeerView) : Prop :=
  (s.manager n).Shows (ids n) (ids n.other) v

variable {ids} {s s' : DialPair} {n : Side} {v : PeerView}

theorem shows_start (n : Side) : (start ids).Shows ids n {} where
  running := rfl
  manager := {
    accepting := rfl
    nodeId := rfl
    known := fun h => absurd rfl h
    conn := rfl
    session := rfl
    tasks := rfl
    cancelled := rfl
    closed := rfl }

theorem Shows.congr (h : s.Shows ids n v) (hm : s'.manager n = s.manager n) :
    s'.Shows ids n v := by
  show (s'.manager n).Shows _ _ v
  rw [hm]
  exact h

/-- An intent makes a node that has nothing for the other dial it, unless it has dialed
before. -/
theorem Shows.submitIntent_idle (h : s.Shows ids n {}) {intent : Intent} {taken : Bool}
    (hstep : s.step ids (.submitIntent n intent taken) = some s') :
    s.dialed n = false ∧ ∃ m dial, s' = { s with
      manager := Function.update s.manager n m
      dialed := Function.update s.dialed n true } ∧
      m.Shows (ids n) (ids n.other)
        { conn := .establishing (some dial) dial, tasks := [⟨dial, ids n.other, .dial⟩] } := by
  obtain ⟨hnext, hshows⟩ := h.manager.submitIntent_idle intent taken
  simp only [step, ManagerState.step, h.running, h.manager.accepting, Bool.false_eq_true, if_false,
    Option.bind_some, hnext, Nat.lt_succ_self, decide_true, Bool.true_and, Bool.true_or] at hstep
  split at hstep
  · cases hstep
  · rename_i hdialed
    refine ⟨by simpa using hdialed, _, _, (Option.some.inj hstep).symm, rfl, hshows⟩

/-- Otherwise an intent changes nothing between the nodes. -/
theorem Shows.submitIntent_busy (h : s.Shows ids n v) (hconn : v.conn ≠ .none) {intent : Intent}
    {taken : Bool} (hstep : s.step ids (.submitIntent n intent taken) = some s') :
    ∃ m, s' = { s with manager := Function.update s.manager n m } ∧
      m.Shows (ids n) (ids n.other) v := by
  obtain ⟨hnext, hshows⟩ := h.manager.submitIntent_busy hconn intent taken
  simp only [step, ManagerState.step, h.running, h.manager.accepting, Bool.false_eq_true, if_false,
    Option.bind_some, hnext, Nat.lt_irrefl, decide_false, Bool.false_and, Bool.false_or,
    Function.update_eq_self] at hstep
  exact ⟨_, (Option.some.inj hstep).symm, rfl, hshows⟩

/-- An attempt arrives once, after it was made. -/
theorem arrive_inv (h : s.Shows ids n.other v) {intent : Intent} {taken : Bool}
    (hstep : s.step ids (.arrive n intent taken) = some s') :
    s.dialed n = true ∧ s.arrived n = false ∧ s' = { s with
      manager := Function.update s.manager n.other
        ⟨(s.manager n.other).manager.handleConnection (ids n) n.conn (some intent) taken, none⟩
      arrived := Function.update s.arrived n true } := by
  simp only [step] at hstep
  split at hstep
  · rename_i hguard
    simp only [Bool.and_eq_true, Bool.not_eq_true'] at hguard
    simp only [ManagerState.step, h.running, h.manager.accepting, Bool.false_eq_true, if_false,
      Option.map_some, Option.some.injEq] at hstep
    exact ⟨hguard.1, hguard.2, hstep.symm⟩
  · cases hstep

/-- A task that finishes is a task of the node, and brings what the network lets it. -/
theorem join_inv (h : s.Shows ids n v) {task : ConnTask}
    {res : Except ConnectionError Established}
    (hstep : s.step ids (.join n task res) = some s') :
    task ∈ v.tasks ∧ s.brings n task res = true := by
  simp only [step] at hstep
  split at hstep
  · rename_i hbrings
    refine ⟨?_, hbrings⟩
    obtain ⟨m, hm, -⟩ := Option.map_eq_some_iff.mp hstep
    simp only [ManagerState.step, h.running] at hm
    split at hm
    · rename_i hguard
      rw [← h.manager.tasks]
      exact hguard.1
    · cases hm
  · cases hstep

/-- What becomes of the pair when a task has finished. -/
theorem join_of_output (h : s.Shows ids n v) {task : ConnTask}
    {res : Except ConnectionError Established} {m : PeerManager} (hpeer : task.peer = ids n.other)
    (hout : (ManagerState.joined (s.manager n).manager task).handleConnOutput (ids n.other)
      (.established res) true = .ok m) (hstep : s.step ids (.join n task res) = some s') :
    s' = { s with
      manager := Function.update s.manager n ⟨m, none⟩
      established := s.record n res } := by
  simp only [step] at hstep
  split at hstep
  · obtain ⟨m', hm', rfl⟩ := Option.map_eq_some_iff.mp hstep
    simp only [ManagerState.step, h.running, hpeer, hout] at hm'
    split at hm'
    · rw [← Option.some.inj hm']
    · cases hm'
  · cases hstep

theorem Shows.join_ok (h : s.Shows ids n v) (hsession : v.session = .none) {task : ConnTask}
    (hpeer : task.peer = ids n.other) {e : Established}
    (hstep : s.step ids (.join n task (.ok e)) = some s') :
    ∃ m abort session, s' = { s with
      manager := Function.update s.manager n m
      established := Function.update s.established n (s.established n ++ [e]) } ∧
      m.Shows (ids n) (ids n.other)
        { v with
          conn := .active abort
          session := .active session
          tasks := v.tasks.erase task ++ [⟨abort, ids n.other, .channels e.conn session⟩] } := by
  have hne : v.tasks ≠ [] := List.ne_nil_of_mem (join_inv h hstep).1
  obtain ⟨m, session, hout, hshows⟩ := h.manager.join_ok hne hsession task e
  exact ⟨_, _, session, join_of_output h hpeer hout hstep, rfl, hshows⟩

theorem Shows.join_locallyClosed (h : s.Shows ids n v) {task : ConnTask}
    (hpeer : task.peer = ids n.other)
    (hstep : s.step ids (.join n task (.error .locallyClosed)) = some s') :
    ∃ m, s' = { s with manager := Function.update s.manager n m } ∧
      m.Shows (ids n) (ids n.other) { v with tasks := v.tasks.erase task } := by
  have hne : v.tasks ≠ [] := List.ne_nil_of_mem (join_inv h hstep).1
  obtain ⟨m, hout, hshows⟩ := h.manager.join_locallyClosed hne task
  exact ⟨_, join_of_output h hpeer hout hstep, rfl, hshows⟩

theorem Shows.join_duplicate (h : s.Shows ids n v) {task : ConnTask}
    (hpeer : task.peer = ids n.other)
    (hstep : s.step ids (.join n task (.error (.applicationClosed errorCodeDuplicateConn))) =
      some s') :
    ∃ m, s' = { s with manager := Function.update s.manager n m } ∧
      m.Shows (ids n) (ids n.other)
        { v with conn := PeerManager.released v.conn, tasks := v.tasks.erase task } := by
  have hne : v.tasks ≠ [] := List.ne_nil_of_mem (join_inv h hstep).1
  obtain ⟨m, hout, hshows⟩ := h.manager.join_duplicate hne task
  exact ⟨_, join_of_output h hpeer hout hstep, rfl, hshows⟩

/-! ## The phases -/

/-- The node dials, or has established the connection it dials. -/
inductive Dials (p : NodeId) (conn : Connection) (closed : List (Connection × Nat × String)) :
    PeerView → List Established → Prop
  | dialing (dial : TaskId) : Dials p conn closed
      { conn := .establishing (some dial) dial, tasks := [⟨dial, p, .dial⟩], closed := closed } []
  | active (abort k : TaskId) (session : SessionId) : Dials p conn closed
      { conn := .active abort, session := .active session,
        tasks := [⟨k, p, .channels conn session⟩], closed := closed } [⟨.alfie, conn⟩]

/-- The node accepts, or has established the connection it accepts. A dial it has
cancelled may not have finished. -/
inductive Accepts (p : NodeId) (conn : Connection) (stale : List ConnTask)
    (cancelled : List TaskId) : PeerView → List Established → Prop
  | accepting (k : TaskId) : Accepts p conn stale cancelled
      { conn := .establishing none k, tasks := stale ++ [⟨k, p, .accept conn⟩],
        cancelled := cancelled } []
  | active (abort k : TaskId) (session : SessionId) : Accepts p conn stale cancelled
      { conn := .active abort, session := .active session,
        tasks := stale ++ [⟨k, p, .channels conn session⟩], cancelled := cancelled }
      [⟨.betty, conn⟩]

/-- What `large` has closed: the connection of `small`, once it has arrived. -/
inductive Refused : Bool → List (Connection × Nat × String) → Prop
  | not : Refused false []
  | yes (reason : String) : Refused true [(Side.small.conn, errorCodeDuplicateConn, reason)]

/-- The node with the smaller id has nothing for the other, because it has not dialed or
was refused, or it dials. -/
def SmallWaits (ids : Side → NodeId) (s : DialPair) : Prop :=
  (s.Shows ids .small {} ∧ s.dialed .small = s.arrived .small) ∨
    s.dialed .small = true ∧ ∃ dial, s.Shows ids .small
      { conn := .establishing (some dial) dial, tasks := [⟨dial, ids .large, .dial⟩] }

/-- The node with the larger id has not dialed, or dials and refuses the other. -/
def LargeWaits (ids : Side → NodeId) (s : DialPair) : Prop :=
  (s.Shows ids .large {} ∧ s.dialed .large = false ∧ s.arrived .small = false) ∨
    s.dialed .large = true ∧ ∃ dial closed, Refused (s.arrived .small) closed ∧
      s.Shows ids .large
        { conn := .establishing (some dial) dial, tasks := [⟨dial, ids .small, .dial⟩],
          closed := closed }

/-- Nothing was accepted. -/
structure Open (ids : Side → NodeId) (s : DialPair) : Prop where
  arrived : s.arrived .large = false
  established : ∀ n, s.established n = []
  small : s.SmallWaits ids
  large : s.LargeWaits ids

/-- The node with the larger id has accepted the connection of the other, and does not
dial. -/
structure SmallWins (ids : Side → NodeId) (s : DialPair) : Prop where
  arrived : s.arrived .small = true
  notDialed : s.dialed .large = false
  small : ∃ v, s.Shows ids .small v ∧
    Dials (ids .large) Side.small.conn [] v (s.established .small)
  large : ∃ v, s.Shows ids .large v ∧
    Accepts (ids .small) Side.small.conn [] [] v (s.established .large)

/-- The node with the smaller id has accepted the connection of the other. -/
structure LargeWins (ids : Side → NodeId) (s : DialPair) : Prop where
  arrived : s.arrived .large = true
  small : ∃ stale cancelled v,
    (∀ t ∈ stale, t.peer = ids .large ∧ t.kind = .dial) ∧ s.Shows ids .small v ∧
      Accepts (ids .large) Side.large.conn stale cancelled v (s.established .small)
  large : ∃ closed v, Refused (s.arrived .small) closed ∧ s.Shows ids .large v ∧
    Dials (ids .small) Side.large.conn closed v (s.established .large)

/-- **The invariant.** -/
inductive Phase (ids : Side → NodeId) (s : DialPair) : Prop
  | none (h : s.Open ids)
  | small (h : s.SmallWins ids)
  | large (h : s.LargeWins ids)

theorem phase_start : (start ids).Phase ids := by
  refine .none ⟨rfl, fun _ => rfl, .inl ⟨shows_start _, rfl⟩, .inl ⟨shows_start _, rfl, rfl⟩⟩

theorem Dials.busy {p : NodeId} {conn : Connection} {closed : List (Connection × Nat × String)}
    {est : List Established} (h : Dials p conn closed v est) : v.conn ≠ .none := by
  cases h <;> simp

theorem Accepts.busy {p : NodeId} {conn : Connection} {stale : List ConnTask}
    {cancelled : List TaskId} {est : List Established} (h : Accepts p conn stale cancelled v est) :
    v.conn ≠ .none := by
  cases h <;> simp

/-- One node has changed, the other shows what it did. -/
theorem shows_update {m : ManagerState} (hm : m.Shows (ids n) (ids n.other) v)
    (hs' : s'.manager = Function.update s.manager n m) : s'.Shows ids n v := by
  show (s'.manager n).Shows _ _ v
  rw [hs', Function.update_self]
  exact hm

theorem Shows.update_other {m : ManagerState} {k : Side} (h : s.Shows ids k v) (hk : k ≠ n)
    (hs' : s'.manager = Function.update s.manager n m) : s'.Shows ids k v :=
  h.congr (by rw [hs', Function.update_of_ne hk])

theorem SmallWaits.congr (h : s.SmallWaits ids) (hm : s'.manager .small = s.manager .small)
    (hd : s'.dialed .small = s.dialed .small) (ha : s'.arrived .small = s.arrived .small) :
    s'.SmallWaits ids := by
  rcases h with ⟨hshows, hdialed⟩ | ⟨hdialed, dial, hshows⟩
  · exact .inl ⟨hshows.congr hm, by rw [hd, ha, hdialed]⟩
  · exact .inr ⟨hd.trans hdialed, dial, hshows.congr hm⟩

theorem LargeWaits.congr (h : s.LargeWaits ids) (hm : s'.manager .large = s.manager .large)
    (hd : s'.dialed .large = s.dialed .large) (ha : s'.arrived .small = s.arrived .small) :
    s'.LargeWaits ids := by
  rcases h with ⟨hshows, hdialed, harrived⟩ | ⟨hdialed, dial, closed, hclosed, hshows⟩
  · exact .inl ⟨hshows.congr hm, hd.trans hdialed, ha.trans harrived⟩
  · exact .inr ⟨hd.trans hdialed, dial, closed, ha ▸ hclosed, hshows.congr hm⟩

/-! ### An intent -/

theorem Open.submitIntent (h : s.Open ids) {intent : Intent} {taken : Bool}
    (hstep : s.step ids (.submitIntent n intent taken) = some s') : s'.Open ids := by
  cases n with
  | small =>
      rcases h.small with ⟨hshows, -⟩ | ⟨hdialed, dial, hshows⟩
      · obtain ⟨-, m, dial, rfl, hm⟩ := hshows.submitIntent_idle hstep
        exact ⟨h.arrived, h.established, .inr ⟨by simp, dial, shows_update hm rfl⟩,
          h.large.congr (by simp) (by simp) rfl⟩
      · obtain ⟨m, rfl, hm⟩ := hshows.submitIntent_busy (by simp) hstep
        exact ⟨h.arrived, h.established, .inr ⟨hdialed, dial, shows_update hm rfl⟩,
          h.large.congr (by simp) rfl rfl⟩
  | large =>
      rcases h.large with ⟨hshows, -, harrived⟩ | ⟨hdialed, dial, closed, hclosed, hshows⟩
      · obtain ⟨-, m, dial, rfl, hm⟩ := hshows.submitIntent_idle hstep
        refine ⟨h.arrived, h.established, h.small.congr (by simp) (by simp) rfl,
          .inr ⟨by simp, dial, [], ?_, shows_update hm rfl⟩⟩
        show Refused (s.arrived .small) []
        rw [harrived]
        exact .not
      · obtain ⟨m, rfl, hm⟩ := hshows.submitIntent_busy (by simp) hstep
        exact ⟨h.arrived, h.established, h.small.congr (by simp) rfl rfl,
          .inr ⟨hdialed, dial, closed, hclosed, shows_update hm rfl⟩⟩

theorem SmallWins.submitIntent (h : s.SmallWins ids) {intent : Intent} {taken : Bool}
    (hstep : s.step ids (.submitIntent n intent taken) = some s') : s'.SmallWins ids := by
  obtain ⟨v, hv, hdials⟩ := h.small
  obtain ⟨w, hw, haccepts⟩ := h.large
  cases n with
  | small =>
      obtain ⟨m, rfl, hm⟩ := hv.submitIntent_busy hdials.busy hstep
      exact ⟨h.arrived, h.notDialed, ⟨v, shows_update hm rfl, hdials⟩,
        ⟨w, hw.update_other (by decide) rfl, haccepts⟩⟩
  | large =>
      obtain ⟨m, rfl, hm⟩ := hw.submitIntent_busy haccepts.busy hstep
      exact ⟨h.arrived, h.notDialed, ⟨v, hv.update_other (by decide) rfl, hdials⟩,
        ⟨w, shows_update hm rfl, haccepts⟩⟩

theorem LargeWins.submitIntent (h : s.LargeWins ids) {intent : Intent} {taken : Bool}
    (hstep : s.step ids (.submitIntent n intent taken) = some s') : s'.LargeWins ids := by
  obtain ⟨stale, cancelled, v, hstale, hv, haccepts⟩ := h.small
  obtain ⟨closed, w, hclosed, hw, hdials⟩ := h.large
  cases n with
  | small =>
      obtain ⟨m, rfl, hm⟩ := hv.submitIntent_busy haccepts.busy hstep
      exact ⟨h.arrived, ⟨stale, cancelled, v, hstale, shows_update hm rfl, haccepts⟩,
        ⟨closed, w, hclosed, hw.update_other (by decide) rfl, hdials⟩⟩
  | large =>
      obtain ⟨m, rfl, hm⟩ := hw.submitIntent_busy hdials.busy hstep
      exact ⟨h.arrived, ⟨stale, cancelled, v, hstale, hv.update_other (by decide) rfl, haccepts⟩,
        ⟨closed, w, hclosed, shows_update hm rfl, hdials⟩⟩

/-! ### An attempt that arrives -/

variable {intent : Intent} {taken : Bool}

/-- The attempt of the node with the smaller id is accepted, unless the other dials. -/
theorem Open.arrive_small (h : s.Open ids) (hlt : ids .small < ids .large)
    (hstep : s.step ids (.arrive .small intent taken) = some s') : s'.Phase ids := by
  rcases h.large with ⟨hshows, hnot, -⟩ | ⟨hlarge, dial, closed, hclosed, hshows⟩
  · obtain ⟨hdialed, harrived, rfl⟩ := arrive_inv (n := .small) hshows hstep
    have haccept := hshows.manager.handleConnection_none Side.small.conn intent taken rfl
    refine .small ⟨by simp, hnot, ?_, ⟨_, shows_update ⟨rfl, haccept⟩ rfl, ?_⟩⟩
    · rcases h.small with ⟨-, heq⟩ | ⟨-, dial, hsmall⟩
      · rw [hdialed, harrived] at heq
        cases heq
      · refine ⟨_, hsmall.update_other (by decide) rfl, ?_⟩
        rw [show s.established .small = [] from h.established _]
        exact .dialing dial
    · rw [show s.established .large = [] from h.established _]
      exact .accepting _
  · obtain ⟨hdialed, harrived, rfl⟩ := arrive_inv (n := .small) hshows hstep
    rw [harrived] at hclosed
    cases hclosed
    have hinsists := hshows.manager.handleConnection_insists Side.small.conn intent taken (not_lt_of_gt hlt) rfl
    refine .none ⟨by simpa using h.arrived, h.established, ?_, ?_⟩
    · rcases h.small with ⟨-, heq⟩ | ⟨-, dial, hsmall⟩
      · rw [hdialed, harrived] at heq
        cases heq
      · exact .inr ⟨hdialed, dial, hsmall.update_other (by decide) rfl⟩
    · refine .inr ⟨hlarge, dial, _, ?_, shows_update ⟨rfl, hinsists⟩ rfl⟩
      simpa using Refused.yes _

/-- The attempt of the node with the larger id is accepted. -/
theorem Open.arrive_large (h : s.Open ids) (hlt : ids .small < ids .large)
    (hstep : s.step ids (.arrive .large intent taken) = some s') : s'.LargeWins ids := by
  have hlarge : ∀ t : DialPair, s.dialed .large = true →
      t.manager .large = s.manager .large → t.arrived .small = s.arrived .small →
      t.established = s.established → ∃ closed v, Refused (t.arrived .small) closed ∧
      t.Shows ids .large v ∧
        Dials (ids .small) Side.large.conn closed v (t.established .large) := by
    intro t hdialed hm ha he
    rcases h.large with ⟨-, hnot, -⟩ | ⟨-, dial, closed, hclosed, hshows⟩
    · rw [hdialed] at hnot
      cases hnot
    · refine ⟨closed, _, ha ▸ hclosed, hshows.congr hm, ?_⟩
      rw [he, show s.established .large = [] from h.established _]
      exact .dialing dial
  rcases h.small with ⟨hshows, -⟩ | ⟨-, dial, hshows⟩
  · obtain ⟨hdialed, -, rfl⟩ := arrive_inv (n := .large) hshows hstep
    have haccept := hshows.manager.handleConnection_none Side.large.conn intent taken rfl
    refine ⟨by simp, ⟨[], [], _, by simp, shows_update ⟨rfl, haccept⟩ rfl, ?_⟩,
      hlarge _ hdialed (by simp) (by simp) rfl⟩
    rw [show s.established .small = [] from h.established _]
    exact .accepting _
  · obtain ⟨hdialed, -, rfl⟩ := arrive_inv (n := .large) hshows hstep
    have hyields := hshows.manager.handleConnection_yields Side.large.conn intent taken hlt rfl
    refine ⟨by simp, ⟨[⟨dial, ids .large, .dial⟩], [dial], _, by simp,
      shows_update ⟨rfl, hyields⟩ rfl, ?_⟩, hlarge _ hdialed (by simp) (by simp) rfl⟩
    rw [show s.established .small = [] from h.established _]
    exact .accepting _

/-- Both have been decided on: nothing arrives any more. -/
theorem SmallWins.arrive (h : s.SmallWins ids)
    (hstep : s.step ids (.arrive n intent taken) = some s') : False := by
  obtain ⟨v, hv, -⟩ := h.small
  obtain ⟨w, hw, -⟩ := h.large
  cases n with
  | small =>
      obtain ⟨-, harrived, -⟩ := arrive_inv (n := .small) hw hstep
      rw [h.arrived] at harrived
      cases harrived
  | large =>
      obtain ⟨hdialed, -, -⟩ := arrive_inv (n := .large) hv hstep
      rw [h.notDialed] at hdialed
      cases hdialed

/-- A node that has the larger id and dials, or has established its connection, refuses. -/
theorem Dials.refuses (intent : Intent) (taken : Bool) {m : PeerManager} {conn : Connection}
    {est : List Established} (hm : m.Shows (ids .large) (ids .small) v) (hdials : Dials (ids .small) conn [] v est)
    (hlt : ids .small < ids .large) : ∃ closed w, Refused true closed ∧
      (m.handleConnection (ids .small) Side.small.conn (some intent) taken).Shows (ids .large)
        (ids .small) w ∧ Dials (ids .small) conn closed w est := by
  cases hdials with
  | dialing dial =>
      exact ⟨_, _, .yes _, hm.handleConnection_insists _ _ _ (not_lt_of_gt hlt) rfl, .dialing dial⟩
  | active abort k session =>
      exact ⟨_, _, .yes _, hm.handleConnection_active _ _ _ rfl, .active abort k session⟩

/-- The attempt of the node with the smaller id is refused. -/
theorem LargeWins.arrive (h : s.LargeWins ids) (hlt : ids .small < ids .large)
    (hstep : s.step ids (.arrive n intent taken) = some s') : s'.LargeWins ids := by
  obtain ⟨stale, cancelled, v, hstale, hv, haccepts⟩ := h.small
  obtain ⟨closed, w, hclosed, hw, hdials⟩ := h.large
  cases n with
  | small =>
      obtain ⟨-, harrived, rfl⟩ := arrive_inv (n := .small) hw hstep
      rw [harrived] at hclosed
      cases hclosed
      obtain ⟨closed, w', hclosed, hw', hdials'⟩ :=
        hdials.refuses intent taken hw.manager hlt
      refine ⟨by simpa using h.arrived, ⟨stale, cancelled, v, hstale,
        hv.update_other (by decide) rfl, haccepts⟩,
        ⟨closed, w', ?_, shows_update ⟨rfl, hw'⟩ rfl, hdials'⟩⟩
      simpa using hclosed
  | large =>
      obtain ⟨-, harrived, -⟩ := arrive_inv (n := .large) hv hstep
      rw [h.arrived] at harrived
      cases harrived

/-! ### A task that finishes -/

/-- A dial that the other node has not refused is established in the end. -/
theorem Dials.join {closed : List (Connection × Nat × String)} (h : s.Shows ids n v)
    (hdials : Dials (ids n.other) n.conn closed v (s.established n))
    (hopen : (s.manager n.other).manager.closedConns = []) {task : ConnTask}
    {res : Except ConnectionError Established}
    (hstep : s.step ids (.join n task res) = some s') :
    ∃ m w est, s' = { s with
      manager := Function.update s.manager n m
      established := Function.update s.established n est } ∧
      m.Shows (ids n) (ids n.other) w ∧ Dials (ids n.other) n.conn closed w est := by
  obtain ⟨htask, hbrings⟩ := join_inv h hstep
  generalize hest : s.established n = est at hdials
  cases hdials with
  | dialing dial =>
      obtain rfl := List.mem_singleton.mp htask
      cases res with
      | ok e =>
          simp only [brings, Bool.and_eq_true, decide_eq_true_eq] at hbrings
          obtain ⟨rfl, -⟩ := hbrings
          obtain ⟨m, abort, session, rfl, hm⟩ := h.join_ok rfl rfl hstep
          refine ⟨m, _, _, rfl, hm, ?_⟩
          rw [hest]
          simpa using Dials.active abort abort session
      | error err =>
          cases err with
          | locallyClosed => simp [brings, h.manager.cancelled] at hbrings
          | applicationClosed code => simp [brings, hopen] at hbrings
          | other => simp [brings] at hbrings
  | active abort k session =>
      obtain rfl := List.mem_singleton.mp htask
      cases res with
      | ok e => simp [brings] at hbrings
      | error err => cases err <;> simp [brings] at hbrings

/-- A dial that was cancelled and refused comes to nothing. -/
theorem Shows.join_stale (h : s.Shows ids n v) (hconn : PeerManager.released v.conn = v.conn)
    {task : ConnTask} (hpeer : task.peer = ids n.other) (hkind : task.kind = .dial)
    (hrefused : s.accepted n = false)
    (hcode : ∀ c ∈ (s.manager n.other).manager.closedConns, c.2.1 = errorCodeDuplicateConn)
    {res : Except ConnectionError Established}
    (hstep : s.step ids (.join n task res) = some s') :
    ∃ m, s' = { s with manager := Function.update s.manager n m } ∧
      m.Shows (ids n) (ids n.other) { v with tasks := v.tasks.erase task } := by
  obtain ⟨-, hbrings⟩ := join_inv h hstep
  cases res with
  | ok e => simp [brings, hkind, hrefused] at hbrings
  | error err =>
      cases err with
      | locallyClosed => exact h.join_locallyClosed hpeer hstep
      | applicationClosed code =>
          simp only [brings, hkind, List.any_eq_true, Bool.and_eq_true, decide_eq_true_eq]
            at hbrings
          obtain ⟨c, hc, -, rfl⟩ := hbrings
          rw [hcode c hc] at hstep
          have hjoin := h.join_duplicate hpeer hstep
          rwa [hconn] at hjoin
      | other => simp [brings] at hbrings

/-- What was accepted is established in the end, when its dial is not cancelled; the
cancelled dial of the node itself comes to nothing. -/
theorem Accepts.join {stale : List ConnTask} {cancelled : List TaskId} (h : s.Shows ids n v)
    (haccepts : Accepts (ids n.other) n.other.conn stale cancelled v (s.established n))
    (hstale : ∀ t ∈ stale, t.peer = ids n.other ∧ t.kind = .dial)
    (hkept : (s.manager n.other).manager.cancelled = [])
    (hrefused : stale ≠ [] → s.accepted n = false)
    (hcode : ∀ c ∈ (s.manager n.other).manager.closedConns, c.2.1 = errorCodeDuplicateConn)
    {task : ConnTask} {res : Except ConnectionError Established}
    (hstep : s.step ids (.join n task res) = some s') :
    ∃ m stale' w est, s' = { s with
      manager := Function.update s.manager n m
      established := Function.update s.established n est } ∧ (∀ t ∈ stale', t ∈ stale) ∧
      m.Shows (ids n) (ids n.other) w ∧
      Accepts (ids n.other) n.other.conn stale' cancelled w est := by
  obtain ⟨htask, hbrings⟩ := join_inv h hstep
  -- a stale task leaves what is established
  have hsame : ∀ m : ManagerState, ({ s with manager := Function.update s.manager n m } : DialPair) =
      { s with
        manager := Function.update s.manager n m
        established := Function.update s.established n (s.established n) } := by
    intro m
    rw [Function.update_eq_self]
  generalize hest : s.established n = est at haccepts hsame
  cases haccepts with
  | accepting k =>
      rcases List.mem_append.mp htask with hmem | hmem
      · obtain ⟨hpeer, hkind⟩ := hstale task hmem
        obtain ⟨m, rfl, hm⟩ := h.join_stale rfl hpeer hkind (hrefused (List.ne_nil_of_mem hmem))
          hcode hstep
        rw [List.erase_append_left _ hmem] at hm
        exact ⟨m, _, _, _, hsame m, fun t ht => List.mem_of_mem_erase ht, hm, .accepting k⟩
      · obtain rfl := List.mem_singleton.mp hmem
        -- the accepting task is not one of the stale dials
        have hnot : (⟨k, ids n.other, .accept n.other.conn⟩ : ConnTask) ∉ stale := by
          intro hmem
          cases (hstale _ hmem).2
        cases res with
        | ok e =>
            simp only [brings, decide_eq_true_eq] at hbrings
            subst hbrings
            obtain ⟨m, abort, session, rfl, hm⟩ := h.join_ok rfl rfl hstep
            rw [List.erase_append_right _ hnot] at hm
            refine ⟨m, stale, _, _, rfl, fun t ht => ht, hm, ?_⟩
            rw [hest]
            simpa using Accepts.active abort abort session
        -- the dialer keeps this connection
        | error err => cases err <;> simp [brings, hkept] at hbrings
  | active abort k session =>
      rcases List.mem_append.mp htask with hmem | hmem
      · obtain ⟨hpeer, hkind⟩ := hstale task hmem
        obtain ⟨m, rfl, hm⟩ := h.join_stale rfl hpeer hkind (hrefused (List.ne_nil_of_mem hmem))
          hcode hstep
        rw [List.erase_append_left _ hmem] at hm
        exact ⟨m, _, _, _, hsame m, fun t ht => List.mem_of_mem_erase ht, hm,
          .active abort k session⟩
      · obtain rfl := List.mem_singleton.mp hmem
        cases res with
        | ok e => simp [brings] at hbrings
        | error err => cases err <;> simp [brings] at hbrings

/-- What `large` has closed, it has closed as a duplicate, and it is what it refused. -/
theorem Refused.code {arrived : Bool} {closed : List (Connection × Nat × String)}
    (h : Refused arrived closed) : ∀ c ∈ closed, c.2.1 = errorCodeDuplicateConn := by
  cases h <;> simp

theorem Refused.not_accepted {closed : List (Connection × Nat × String)}
    (h : Refused (s.arrived .small) closed) (hlarge : s.Shows ids .large v)
    (hv : v.closed = closed) : s.accepted .small = false := by
  have hclosed : (s.manager .large).manager.closedConns = closed := hlarge.manager.closed.trans hv
  generalize harrived : s.arrived .small = arrived at h
  cases h with
  | not => simp [accepted, harrived]
  | yes reason => simp [accepted, hclosed]

theorem Dials.closed_eq {p : NodeId} {conn : Connection}
    {closed : List (Connection × Nat × String)} {est : List Established}
    (h : Dials p conn closed v est) : v.closed = closed := by
  cases h <;> rfl

theorem Dials.cancelled_eq {p : NodeId} {conn : Connection}
    {closed : List (Connection × Nat × String)} {est : List Established}
    (h : Dials p conn closed v est) : v.cancelled = [] := by
  cases h <;> rfl

theorem Accepts.closed_eq {p : NodeId} {conn : Connection} {stale : List ConnTask}
    {cancelled : List TaskId} {est : List Established}
    (h : Accepts p conn stale cancelled v est) : v.closed = [] := by
  cases h <;> rfl

variable {task : ConnTask} {res : Except ConnectionError Established}

theorem LargeWaits.refused (h : s.LargeWaits ids) : ∃ closed v, Refused (s.arrived .small) closed ∧
    s.Shows ids .large v ∧ v.closed = closed ∧ v.cancelled = [] := by
  rcases h with ⟨hshows, -, harrived⟩ | ⟨-, dial, closed, hclosed, hshows⟩
  · refine ⟨[], _, ?_, hshows, rfl, rfl⟩
    rw [harrived]
    exact .not
  · exact ⟨closed, _, hclosed, hshows, rfl, rfl⟩

theorem SmallWaits.closed (h : s.SmallWaits ids) :
    (s.manager .small).manager.closedConns = [] := by
  rcases h with ⟨hshows, -⟩ | ⟨-, dial, hshows⟩
  · exact hshows.manager.closed
  · exact hshows.manager.closed

/-- Before anything is accepted, only a dial that was refused can finish. -/
theorem Open.join (h : s.Open ids) (hstep : s.step ids (.join n task res) = some s') :
    s'.Open ids := by
  cases n with
  | small =>
      obtain ⟨closed, w, hrefused, hlarge, hw, -⟩ := h.large.refused
      have hclosed : (s.manager .large).manager.closedConns = closed :=
        hlarge.manager.closed.trans hw
      rcases h.small with ⟨hshows, -⟩ | ⟨hdialed, dial, hshows⟩
      · cases (join_inv hshows hstep).1
      · obtain ⟨htask, hbrings⟩ := join_inv hshows hstep
        obtain rfl := List.mem_singleton.mp htask
        cases res with
        | ok e => simp [brings, hrefused.not_accepted hlarge hw] at hbrings
        | error err =>
            cases err with
            | locallyClosed => simp [brings, hshows.manager.cancelled] at hbrings
            | applicationClosed code =>
                simp only [brings, Side.other_small, hclosed] at hbrings
                generalize harrived : s.arrived .small = arrived at hrefused
                cases hrefused with
                | not => cases hbrings
                | yes reason =>
                    simp only [List.any_cons, List.any_nil, decide_true, Bool.true_and,
                      Bool.or_false, decide_eq_true_eq] at hbrings
                    subst hbrings
                    obtain ⟨m, rfl, hm⟩ := hshows.join_duplicate rfl hstep
                    have hfreed : m.Shows (ids .small) (ids .large) {} := by
                      simpa [PeerManager.released] using hm
                    exact ⟨h.arrived, h.established,
                      .inl ⟨shows_update hfreed rfl, hdialed.trans harrived.symm⟩,
                      h.large.congr (by simp) rfl rfl⟩
            | other => simp [brings] at hbrings
  | large =>
      rcases h.large with ⟨hshows, -⟩ | ⟨hdialed, dial, closed, hclosed, hshows⟩
      · cases (join_inv hshows hstep).1
      · obtain ⟨htask, hbrings⟩ := join_inv hshows hstep
        obtain rfl := List.mem_singleton.mp htask
        cases res with
        | ok e => simp [brings, accepted, h.arrived] at hbrings
        | error err =>
            cases err with
            | locallyClosed => simp [brings, hshows.manager.cancelled] at hbrings
            | applicationClosed code => simp [brings, h.small.closed] at hbrings
            | other => simp [brings] at hbrings

theorem SmallWins.join (h : s.SmallWins ids) (hstep : s.step ids (.join n task res) = some s') :
    s'.SmallWins ids := by
  obtain ⟨v, hv, hdials⟩ := h.small
  obtain ⟨w, hw, haccepts⟩ := h.large
  cases n with
  | small =>
      have hopen : (s.manager .large).manager.closedConns = [] :=
        hw.manager.closed.trans haccepts.closed_eq
      obtain ⟨m, v', est, rfl, hm, hdials'⟩ := Dials.join (n := .small) hv hdials hopen hstep
      refine ⟨h.arrived, h.notDialed, ⟨v', shows_update hm rfl, ?_⟩,
        ⟨w, hw.update_other (by decide) rfl, ?_⟩⟩
      · simpa using hdials'
      · simpa using haccepts
  | large =>
      have hkept : (s.manager .small).manager.cancelled = [] :=
        hv.manager.cancelled.trans hdials.cancelled_eq
      have hopen : (s.manager .small).manager.closedConns = [] :=
        hv.manager.closed.trans hdials.closed_eq
      obtain ⟨m, stale, w', est, rfl, hstale, hm, haccepts'⟩ := Accepts.join (n := .large) hw haccepts
        (by simp) hkept (by simp) (by simp [hopen]) hstep
      obtain rfl : stale = [] := List.eq_nil_iff_forall_not_mem.mpr fun t ht => by
        cases hstale t ht
      refine ⟨h.arrived, h.notDialed, ⟨v, hv.update_other (by decide) rfl, ?_⟩,
        ⟨w', shows_update hm rfl, ?_⟩⟩
      · simpa using hdials
      · simpa using haccepts'

theorem LargeWins.join (h : s.LargeWins ids) (hstep : s.step ids (.join n task res) = some s') :
    s'.LargeWins ids := by
  obtain ⟨stale, cancelled, v, hstale, hv, haccepts⟩ := h.small
  obtain ⟨closed, w, hclosed, hw, hdials⟩ := h.large
  cases n with
  | small =>
      have hkept : (s.manager .large).manager.cancelled = [] :=
        hw.manager.cancelled.trans hdials.cancelled_eq
      have hcode : ∀ c ∈ (s.manager .large).manager.closedConns, c.2.1 = errorCodeDuplicateConn := by
        rw [hw.manager.closed.trans hdials.closed_eq]
        exact hclosed.code
      obtain ⟨m, stale', v', est, rfl, hstale', hm, haccepts'⟩ := Accepts.join (n := .small) hv
        haccepts hstale hkept (fun _ => hclosed.not_accepted hw hdials.closed_eq) hcode hstep
      refine ⟨h.arrived, ⟨stale', cancelled, v', fun t ht => hstale t (hstale' t ht),
        shows_update hm rfl, ?_⟩, ⟨closed, w, hclosed, hw.update_other (by decide) rfl, ?_⟩⟩
      · simpa using haccepts'
      · simpa using hdials
  | large =>
      have hopen : (s.manager .small).manager.closedConns = [] :=
        hv.manager.closed.trans haccepts.closed_eq
      obtain ⟨m, w', est, rfl, hm, hdials'⟩ := Dials.join (n := .large) hw hdials hopen hstep
      refine ⟨h.arrived, ⟨stale, cancelled, v, hstale, hv.update_other (by decide) rfl, ?_⟩,
        ⟨closed, w', hclosed, shows_update hm rfl, ?_⟩⟩
      · simpa using haccepts
      · simpa using hdials'

/-- **One step** keeps the invariant. -/
theorem Phase.step (h : s.Phase ids) (hlt : ids .small < ids .large) {a : DialAction}
    (hstep : s.step ids a = some s') : s'.Phase ids := by
  cases a with
  | submitIntent n intent taken =>
      cases h with
      | none h => exact .none (h.submitIntent hstep)
      | small h => exact .small (h.submitIntent hstep)
      | large h => exact .large (h.submitIntent hstep)
  | arrive n intent taken =>
      cases h with
      | none h =>
          cases n with
          | small => exact h.arrive_small hlt hstep
          | large => exact .large (h.arrive_large hlt hstep)
      | small h => exact (h.arrive hstep).elim
      | large h => exact .large (h.arrive hlt hstep)
  | join n task res =>
      cases h with
      | none h => exact .none (h.join hstep)
      | small h => exact .small (h.join hstep)
      | large h => exact .large (h.join hstep)

/-! ## One connection -/

/-- A dial is established once, and until then its task is there. -/
theorem Dials.established_eq {p : NodeId} {conn : Connection}
    {closed : List (Connection × Nat × String)} {est : List Established}
    (h : Dials p conn closed v est) :
    (est = [] ∧ ∃ t ∈ v.tasks, t.kind = .dial) ∨ est = [⟨.alfie, conn⟩] := by
  cases h with
  | dialing dial => exact .inl ⟨rfl, _, List.mem_singleton_self _, rfl⟩
  | active abort k session => exact .inr rfl

theorem Accepts.established_eq {p : NodeId} {conn : Connection} {stale : List ConnTask}
    {cancelled : List TaskId} {est : List Established}
    (h : Accepts p conn stale cancelled v est) :
    (est = [] ∧ ∃ t ∈ v.tasks, t.kind = .accept conn) ∨ est = [⟨.betty, conn⟩] := by
  cases h with
  | accepting k => exact .inl ⟨rfl, ⟨k, p, .accept conn⟩, by simp, rfl⟩
  | active abort k session => exact .inr rfl

/-- The connection that `d` dials was accepted, and is not closed. -/
theorem resolved_of_winner {d : Side} {v w : PeerView}
    {closed : List (Connection × Nat × String)} {stale : List ConnTask} {cancelled : List TaskId}
    (hv : s.Shows ids d v) (hdials : Dials (ids d.other) d.conn closed v (s.established d))
    (hw : s.Shows ids d.other w)
    (haccepts : Accepts (ids d) d.conn stale cancelled w (s.established d.other))
    (hlarger : (∀ n, s.dialed n = true) → d = .large) : s.Resolved := by
  have hest := hdials.established_eq
  have hest' := haccepts.established_eq
  -- the dialer is Alfie and the accepting node Betty, on one connection
  have hconn : ∀ n, ∀ e ∈ s.established n, e = ⟨.alfie, d.conn⟩ ∧ n = d ∨
      e = ⟨.betty, d.conn⟩ ∧ n = d.other := by
    intro n e he
    have hn : n = d ∨ n = d.other := by cases n <;> cases d <;> simp
    rcases hn with rfl | rfl
    · rcases hest with ⟨hnil, -⟩ | hone
      · simp [hnil] at he
      · exact .inl ⟨by simpa [hone] using he, rfl⟩
    · rcases hest' with ⟨hnil, -⟩ | hone
      · simp [hnil] at he
      · exact .inr ⟨by simpa [hone] using he, rfl⟩
  have hd : ∀ n, ∀ e ∈ s.established n, e.conn = d.conn := by
    intro n e he
    rcases hconn n e he with ⟨rfl, -⟩ | ⟨rfl, -⟩ <;> rfl
  -- neither node has closed it
  have hkept : ¬ s.ClosedAsDuplicate d := by
    rintro (⟨reason, hreason⟩ | hcancelled)
    · rw [hw.manager.closed, haccepts.closed_eq] at hreason
      cases hreason
    · exact hcancelled (hv.manager.cancelled.trans hdials.cancelled_eq)
  -- the fields of `Resolved`, in order
  refine ⟨fun n => ?_, fun n => ?_, fun n n' e he e' he' => ?_, fun n e he => ?_,
    fun k hk n e he => ?_, fun h => hkept (h d), fun hboth n e he => ?_, fun hsettled _ => ?_⟩
  · have hn : n = d ∨ n = d.other := by cases n <;> cases d <;> simp
    rcases hn with rfl | rfl
    · exact hv.running
    · exact hw.running
  · have hn : n = d ∨ n = d.other := by cases n <;> cases d <;> simp
    rcases hn with rfl | rfl
    · rcases hest with ⟨hnil, -⟩ | hone
      · simp [hnil]
      · simp [hone]
    · rcases hest' with ⟨hnil, -⟩ | hone
      · simp [hnil]
      · simp [hone]
  · rw [hd n e he, hd n' e' he']
  · rcases hconn n e he with ⟨rfl, rfl⟩ | ⟨rfl, rfl⟩
    · exact .inl rfl
    · exact .inr (by cases d <;> rfl)
  · rw [hd n e he]
    intro heq
    have : d = k := by
      revert heq
      cases d <;> cases k <;> decide
    exact hkept (this ▸ hk)
  · rw [hd n e he, hlarger hboth]
  · refine ⟨d, ?_, ?_⟩
    · rcases hest with ⟨-, t, ht, hkind⟩ | hone
      · rw [← hv.manager.tasks] at ht
        exact absurd hkind ((hsettled d).2 t ht).1
      · exact hone
    · rcases hest' with ⟨-, t, ht, hkind⟩ | hone
      · rw [← hw.manager.tasks] at ht
        exact absurd hkind (((hsettled d.other).2 t ht).2 _)
      · exact hone

theorem Open.resolved (h : s.Open ids) : s.Resolved := by
  obtain ⟨closed, w, -, hlarge, -, hcancelled⟩ := h.large.refused
  have hsmall : ∃ v, s.Shows ids .small v := by
    rcases h.small with ⟨hshows, -⟩ | ⟨-, dial, hshows⟩
    · exact ⟨_, hshows⟩
    · exact ⟨_, hshows⟩
  obtain ⟨v, hv⟩ := hsmall
  have hnone : ∀ n, ∀ e, e ∉ s.established n := fun n e => by simp [h.established n]
  refine ⟨fun n => ?_, fun n => by simp [h.established n], fun n n' e he => (hnone n e he).elim,
    fun n e he => (hnone n e he).elim, fun d _ n e he => (hnone n e he).elim, fun hboth => ?_,
    fun _ n e he => (hnone n e he).elim, fun hsettled hdialed => ?_⟩
  · cases n with
    | small => exact hv.running
    | large => exact hlarge.running
  · rcases hboth .large with ⟨reason, hreason⟩ | hne
    · rw [show (s.manager Side.large.other).manager.closedConns = [] from h.small.closed] at hreason
      cases hreason
    · exact hne (hlarge.manager.cancelled.trans hcancelled)
  · -- neither node dials, so neither has dialed
    exfalso
    rcases h.large with ⟨-, hnot, harrived⟩ | ⟨-, dial, closed, -, hshows⟩
    · obtain ⟨n, hn⟩ := hdialed
      cases n with
      | small =>
          rw [(hsettled .small).1, harrived] at hn
          cases hn
      | large =>
          rw [hnot] at hn
          cases hn
    · have hmem : (⟨dial, ids .small, .dial⟩ : ConnTask) ∈ (s.manager .large).manager.connTasks := by
        rw [hshows.manager.tasks]
        exact List.mem_singleton_self _
      exact ((hsettled .large).2 _ hmem).1 rfl

theorem Phase.resolved (h : s.Phase ids) : s.Resolved := by
  cases h with
  | none h => exact h.resolved
  | small h =>
      obtain ⟨v, hv, hdials⟩ := h.small
      obtain ⟨w, hw, haccepts⟩ := h.large
      refine resolved_of_winner hv hdials hw haccepts fun hboth => ?_
      have hdialed := hboth .large
      rw [h.notDialed] at hdialed
      cases hdialed
  | large h =>
      obtain ⟨stale, cancelled, v, -, hv, haccepts⟩ := h.small
      obtain ⟨closed, w, -, hw, hdials⟩ := h.large
      exact resolved_of_winner hw hdials hv haccepts fun _ => rfl

/-- **Simultaneous dialing resolves to one connection**: in every order of intents,
arrivals, cancellations and closes. -/
theorem simultaneous_dial_resolves (ids : Side → NodeId) (hlt : ids .small < ids .large)
    (s : DialPair) (hs : Transition.Reachable (step ids) (fun _ _ => True) (start ids) s) :
    s.Resolved :=
  Phase.resolved (hs.invariant phase_start fun _ _ _ h _ hstep => h.step hlt hstep)

/-! ### Both dial -/

/-- Two ids. -/
def Sample.nodeIds : Side → NodeId
  | .small => .ofByte 1
  | .large => .ofByte 2

/-- Both dial before either attempt arrives, and the attempt of `large` arrives first. -/
def Sample.glare : List DialAction :=
  [.submitIntent .small 0 false, .submitIntent .large 1 false, .arrive .large 2 false,
    .arrive .small 3 false, .join .small ⟨0, .ofByte 2, .dial⟩ (.error .locallyClosed),
    .join .small ⟨1, .ofByte 2, .accept 1⟩ (.ok ⟨.betty, 1⟩),
    .join .large ⟨0, .ofByte 1, .dial⟩ (.ok ⟨.alfie, 1⟩)]

/-- In that run the connection of `large` is established on both sides. -/
theorem glare_resolves :
    ∃ s, Transition.Reachable (step Sample.nodeIds) (fun _ _ => True) (start Sample.nodeIds) s ∧
      s.established .small = [⟨.betty, 1⟩] ∧ s.established .large = [⟨.alfie, 1⟩] ∧
      s.Resolved := by
  have hrun : ((Transition.run (step Sample.nodeIds) (start Sample.nodeIds) Sample.glare).map
      fun s => (s.established .small, s.established .large)) =
      some ([⟨.betty, 1⟩], [⟨.alfie, 1⟩]) := by decide +kernel
  obtain ⟨s, hs, hest⟩ := Option.map_eq_some_iff.mp hrun
  have hreach := Transition.Reachable.of_run_all hs
  exact ⟨s, hreach, congrArg Prod.fst hest, congrArg Prod.snd hest,
    simultaneous_dial_resolves Sample.nodeIds (by decide) s hreach⟩

end DialPair

end IrohWillow
