import IrohWillow.Session.Basic

/-!
# The peer manager

`PeerManager` of `engine/peer_manager.rs`: one entry for each peer, with the state
of its connection and of its session, and the tasks that dial, accept, run and
close connections. What a task brings when it finishes names the peer only.

The intents, and whether a session still takes one, are given with the input.
-/

namespace IrohWillow

/-- `NodeId`, with the order of its bytes. -/
abbrev NodeId := Bytes 32

/-- `Intent`. -/
abbrev Intent := Nat

/-- `Connection`. -/
abbrev Connection := Nat

/-- A task of `conn_tasks`. -/
abbrev TaskId := Nat

/-- `ERROR_CODE_DUPLICATE_CONN`. -/
def errorCodeDuplicateConn : Nat := 3

/-- `ERROR_CODE_SHUTDOWN`. -/
def errorCodeShutdown : Nat := 4

/-- The error of a connection that could not be established: a `ConnectionError`, as
far as the manager looks at it, or another error. -/
inductive ConnectionError where
  | locallyClosed
  | applicationClosed (errorCode : Nat)
  | other
  deriving DecidableEq, Repr

/-- `Established`. -/
structure Established where
  ourRole : Role
  conn : Connection
  deriving DecidableEq

/-- `ConnStep`: what a connection task brings. -/
inductive ConnStep where
  | established (res : Except ConnectionError Established)
  | done (res : Except Unit Connection)
  | closed (res : Except Unit Unit)

/-- `ConnState`; `ourDial` is the token that cancels our dial, which has the name of
the dialing task. -/
inductive ConnState where
  | none
  | establishing (ourDial : Option TaskId) (abortHandle : TaskId)
  | active (abortHandle : TaskId)
  | terminating (abortHandle : TaskId)
  deriving DecidableEq, Repr

/-- `SessionState`, with the session behind `update_tx`. -/
inductive SessionState where
  | none
  | active (session : SessionId)
  deriving DecidableEq, Repr

/-- `PeerInfo`. -/
structure PeerInfo where
  pendingIntents : List Intent := []
  connState : ConnState := .none
  sessionState : SessionState := .none
  deriving DecidableEq

/-- What a spawned task does. -/
inductive TaskKind where
  /-- `connect_if_inactive`: dial, and establish as Alfie. -/
  | dial
  /-- `handle_connection`: establish as Betty. -/
  | accept (conn : Connection)
  /-- The channels of a connection, for a session. -/
  | channels (conn : Connection) (session : SessionId)
  /-- `terminate_gracefully`. -/
  | terminate (conn : Connection)
  deriving DecidableEq

/-- A task of `conn_tasks`. -/
structure ConnTask where
  id : TaskId
  peer : NodeId
  kind : TaskKind
  deriving DecidableEq

/-- How `handle_conn_output` ends the manager. -/
inductive ManagerError where
  | unknownPeer
  | unreachable (message : String)
  | session
  deriving DecidableEq, Repr

/-- `PeerManager`, with the dials it has cancelled, the tasks it has aborted and the
connections it has closed. In `sessionEvents` are the sessions whose `Complete` event
was not received yet; their channel senders are open. -/
structure PeerManager where
  nodeId : NodeId
  peers : NodeId → Option PeerInfo := fun _ => .none
  connTasks : List ConnTask := []
  sessionEvents : NodeId → Option SessionId := fun _ => .none
  shuttingDown : Bool := false
  cancelled : List TaskId := []
  aborted : List TaskId := []
  closedConns : List (Connection × Nat × String) := []
  nextTask : TaskId := 0
  nextSession : SessionId := 0

namespace PeerInfo

/-- `PeerInfo::push_intent`; `taken` says whether the session takes the intent. -/
def pushIntent (info : PeerInfo) (intent : Intent) (taken : Bool) : Bool × PeerInfo :=
  match info.sessionState, taken with
  | .active _, true => (true, info)
  | .active _, false => (false, { info with pendingIntents := info.pendingIntents ++ [intent] })
  | .none, _ => (false, { info with pendingIntents := info.pendingIntents ++ [intent] })

/-- `PeerInfo::abort_pending_intents`. -/
def abortPendingIntents (info : PeerInfo) : PeerInfo := { info with pendingIntents := [] }

end PeerInfo

namespace PeerManager

/-- Set the entry of a peer. -/
def setPeer (m : PeerManager) (peer : NodeId) (info : PeerInfo) : PeerManager :=
  { m with peers := Function.update m.peers peer (some info) }

/-- `self.peers.remove`. -/
def removePeer (m : PeerManager) (peer : NodeId) : PeerManager :=
  { m with peers := Function.update m.peers peer .none }

/-- `self.peers.entry(peer).or_insert_with(|| PeerInfo::new(peer))`. -/
def entry (m : PeerManager) (peer : NodeId) : PeerInfo := (m.peers peer).getD {}

/-- `spawn_conn_task`. -/
def spawnConnTask (m : PeerManager) (peer : NodeId) (kind : TaskKind) : PeerManager :=
  { m with connTasks := m.connTasks ++ [⟨m.nextTask, peer, kind⟩], nextTask := m.nextTask + 1 }

/-- `conn.close`. -/
def closeConn (m : PeerManager) (conn : Connection) (code : Nat) (reason : String) : PeerManager :=
  { m with closedConns := m.closedConns ++ [(conn, code, reason)] }

/-- `PeerManager::connect_if_inactive`. -/
def connectIfInactive (m : PeerManager) (peer : NodeId) : PeerManager :=
  let info := m.entry peer
  match info.connState with
  | .none =>
      (m.spawnConnTask peer .dial).setPeer peer
        { info with connState := .establishing (some m.nextTask) m.nextTask }
  | _ => m.setPeer peer info

/-- `PeerManager::submit_intent`. -/
def submitIntent (m : PeerManager) (peer : NodeId) (intent : Intent) (taken : Bool) :
    PeerManager :=
  let (pushed, info) := (m.entry peer).pushIntent intent taken
  if pushed then m.setPeer peer info else (m.setPeer peer info).connectIfInactive peer

/-- The end of `PeerManager::handle_connection`: the connection is accepted. -/
def acceptConn (m : PeerManager) (peer : NodeId) (conn : Connection) (intent : Intent)
    (taken : Bool) : PeerManager :=
  let (_, info) := (m.entry peer).pushIntent intent taken
  (m.spawnConnTask peer (.accept conn)).setPeer peer
    { info with connState := .establishing none m.nextTask }

/-- `PeerManager::handle_connection`, for a connection with a remote node id; `intent` is
what the accept handler returns. -/
def handleConnection (m : PeerManager) (peer : NodeId) (conn : Connection)
    (intent : Option Intent) (taken : Bool) : PeerManager :=
  match intent with
  | .none => m
  | some intent =>
      let m := m.setPeer peer (m.entry peer)
      match (m.entry peer).connState with
      | .none => m.acceptConn peer conn intent taken
      | .establishing .none _ =>
          m.closeConn conn errorCodeDuplicateConn "duplicate-already-accepting"
      | .establishing (some cancelDial) _ =>
          if m.nodeId < peer then
            ({ m with cancelled := m.cancelled ++ [cancelDial] }).acceptConn peer conn intent taken
          else m.closeConn conn errorCodeDuplicateConn "duplicate-our-dial-wins"
      | .active _ => m.closeConn conn errorCodeDuplicateConn "duplicate-already-active"
      | .terminating _ => m.acceptConn peer conn intent taken

/-- `PeerManager::handle_session_event` for the `Complete` event of a session, whose
channel senders are closed. -/
def handleSessionComplete (m : PeerManager) (peer : NodeId) (remainingIntents : List Intent) :
    PeerManager :=
  let m := { m with sessionEvents := Function.update m.sessionEvents peer .none }
  match m.peers peer with
  | .none => m
  | some info =>
      let info := { info with
        pendingIntents := info.pendingIntents ++ remainingIntents
        sessionState := .none }
      let m := m.setPeer peer info
      match info.connState with
      | .none =>
          if info.pendingIntents.isEmpty then m.removePeer peer else m.connectIfInactive peer
      | _ => m

/-- `PeerManager::handle_conn_output`, `ConnStep::Established(Err(err))`. -/
def onEstablishFailed (m : PeerManager) (peer : NodeId) (info : PeerInfo)
    (err : ConnectionError) : PeerManager :=
  match err with
  | .locallyClosed => m
  | .applicationClosed errorCode =>
      if errorCode = errorCodeDuplicateConn then
        match info.connState with
        | .establishing (some _) _ => m.setPeer peer { info with connState := .none }
        | _ => m
      else onOther
  | .other => onOther
where
  onOther : PeerManager :=
    match info.sessionState with
    | .none => m.removePeer peer
    | .active _ => m.setPeer peer { info with connState := .none }

/-- `PeerManager::handle_conn_output`, `ConnStep::Established(Ok(..))`; `setup` says whether
the channels and the session could be set up. -/
def onEstablished (m : PeerManager) (peer : NodeId) (info : PeerInfo) (res : Established)
    (setup : Bool) : Except ManagerError PeerManager :=
  match info.sessionState with
  | .active _ => .error (.unreachable "session must be inactive when connection establishes")
  | .none =>
      let m := m.setPeer peer { info with pendingIntents := [] }
      if m.shuttingDown then .ok (m.closeConn res.conn errorCodeShutdown "shutting-down")
      else if setup then
        let session := m.nextSession
        .ok (({ m.spawnConnTask peer (.channels res.conn session) with
            sessionEvents := Function.update m.sessionEvents peer (some session)
            nextSession := m.nextSession + 1 }).setPeer peer
          { info with
            pendingIntents := []
            connState := .active m.nextTask
            sessionState := .active session })
      else .error .session

/-- `PeerManager::handle_conn_output`, `ConnStep::Done`. -/
def onDone (m : PeerManager) (peer : NodeId) (info : PeerInfo) (res : Except Unit Connection) :
    Except ManagerError PeerManager :=
  match info.connState with
  | .active _ =>
      match res, info.sessionState with
      | .ok conn, .none =>
          .ok ((m.spawnConnTask peer (.terminate conn)).setPeer peer
            { info with connState := .terminating m.nextTask })
      | .ok _, .active _ => .error (.unreachable
          "connection may not terminate gracefully while session is still active")
      | .error _, .active _ => .ok (m.setPeer peer { info with connState := .none })
      | .error _, .none => .ok (m.removePeer peer)
  | _ => .error (.unreachable "connection state mismatch: Done comes after Active only")

/-- `PeerManager::handle_conn_output`, `ConnStep::Closed`. -/
def onClosed (m : PeerManager) (peer : NodeId) (info : PeerInfo) (res : Except Unit Unit) :
    Except ManagerError PeerManager :=
  match info.connState with
  | .terminating _ =>
      let info := { info with connState := .none }
      let m := m.setPeer peer info
      if info.pendingIntents.isEmpty then
        match info.sessionState with
        | .none => .ok (m.removePeer peer)
        | .active _ => .ok m
      else
        match res with
        | .ok () => .ok (m.connectIfInactive peer)
        | .error _ => .ok (m.setPeer peer info.abortPendingIntents)
  | .establishing _ _ => .ok m
  | .active _ => .ok m
  | .none => .error (.unreachable "ConnState::Closed may not happen while None")

/-- `PeerManager::handle_conn_output`. -/
def handleConnOutput (m : PeerManager) (peer : NodeId) (out : ConnStep) (setup : Bool) :
    Except ManagerError PeerManager :=
  match m.peers peer with
  | .none => .error .unknownPeer
  | some info =>
      match out with
      | .established (.error err) => .ok (m.onEstablishFailed peer info err)
      | .established (.ok res) => m.onEstablished peer info res setup
      | .done res => m.onDone peer info res
      | .closed res => m.onClosed peer info res

/-- `PeerManager::init_shutdown`: establishing tasks are aborted. -/
def initShutdown (m : PeerManager) : PeerManager :=
  { m with
    shuttingDown := true
    aborted := (m.connTasks.filter fun task =>
      match (m.entry task.peer).connState with
      | .establishing _ abortHandle => decide (task.id = abortHandle)
      | _ => false).map (·.id) }

end PeerManager

/-! ## The loop -/

/-- What can happen in the loop of `PeerManager::run`. -/
inductive ManagerEvent where
  | submitIntent (peer : NodeId) (intent : Intent) (taken : Bool)
  | handleConnection (peer : NodeId) (conn : Connection) (intent : Option Intent) (taken : Bool)
  | shutdown
  | sessionComplete (peer : NodeId) (remainingIntents : List Intent)
  | taskJoined (task : ConnTask) (out : ConnStep) (setup : Bool)
  | taskCancelled (task : ConnTask)

/-- What a task can bring. The channels of a connection finish without an error when
the senders are closed, which happens when the session is complete. -/
def ConnTask.brings (m : PeerManager) (task : ConnTask) (out : ConnStep) : Bool :=
  match task.kind, out with
  | .dial, .established (.ok res) => decide (res.ourRole = .alfie)
  | .dial, .established (.error _) => true
  | .accept conn, .established (.ok res) => decide (res = ⟨.betty, conn⟩)
  | .accept _, .established (.error _) => true
  | .channels conn session, .done (.ok conn') =>
      decide (conn' = conn) && decide (m.sessionEvents task.peer ≠ some session)
  | .channels _ _, .done (.error _) => true
  | .terminate _, .closed _ => true
  | _, _ => false

/-- The manager, until an error ends it. -/
structure ManagerState where
  manager : PeerManager
  failed : Option ManagerError := .none

namespace ManagerState

/-- `join_next` has returned the task. -/
def joined (m : PeerManager) (task : ConnTask) : PeerManager :=
  { m with connTasks := m.connTasks.erase task }

/-- One iteration of `PeerManager::run`; `none` when the event is not possible. -/
def step (s : ManagerState) (e : ManagerEvent) : Option ManagerState :=
  let m := s.manager
  match s.failed with
  | some _ => none
  | .none =>
      match e with
      | .submitIntent peer intent taken =>
          if m.shuttingDown then none else some ⟨m.submitIntent peer intent taken, .none⟩
      | .handleConnection peer conn intent taken =>
          if m.shuttingDown then none
          else some ⟨m.handleConnection peer conn intent taken, .none⟩
      | .shutdown => if m.shuttingDown then none else some ⟨m.initShutdown, .none⟩
      | .sessionComplete peer remainingIntents =>
          if (m.sessionEvents peer).isNone then none
          else some ⟨m.handleSessionComplete peer remainingIntents, .none⟩
      | .taskCancelled task =>
          if task ∈ m.connTasks ∧ task.id ∈ m.aborted then some ⟨joined m task, .none⟩ else none
      | .taskJoined task out setup =>
          if task ∈ m.connTasks ∧ task.brings m out = true then
            match (joined m task).handleConnOutput task.peer out setup with
            | .ok m' => some ⟨m', .none⟩
            | .error e => some ⟨joined m task, some e⟩
          else none

/-- A new manager. -/
def start (nodeId : NodeId) : ManagerState := ⟨{ nodeId := nodeId }, .none⟩

end ManagerState

end IrohWillow
