import IrohWillow.Engine.PeerManager
import IrohWillow.Lib.Transition

/-!
# The intents of the peer manager

An intent that comes to the manager for a peer is pending until the session of the peer
takes it, or until its events end with an `Abort`. The books of the manager say, for each
peer, which intents came and what became of them.

A peer with pending intents has a task or a session, after which the manager goes on with
them; or the other node has refused our dial because it dials as well. A connection task
that ends with `LocallyClosed` while it is the current one of its peer, or an accepted
connection that the other node closes as a duplicate, leaves the peer waiting for ever.
-/

namespace IrohWillow

open Transition

namespace PeerManager

variable (m : PeerManager) (p : NodeId)

/-- The pending intents of a peer. -/
def pending : List Intent := (m.entry p).pendingIntents

@[simp] theorem entry_setPeer_self (info : PeerInfo) : (m.setPeer p info).entry p = info := by
  simp [entry, setPeer]

theorem entry_setPeer_of_ne {q : NodeId} (hne : q ≠ p) (info : PeerInfo) :
    (m.setPeer p info).entry q = m.entry q := by
  simp [entry, setPeer, hne]

@[simp] theorem entry_removePeer_self : (m.removePeer p).entry p = {} := by
  simp [entry, removePeer]

theorem entry_removePeer_of_ne {q : NodeId} (hne : q ≠ p) :
    (m.removePeer p).entry q = m.entry q := by
  simp [entry, removePeer, hne]

@[simp] theorem pending_setPeer (info : PeerInfo) :
    (m.setPeer p info).pending = Function.update m.pending p info.pendingIntents := by
  funext q
  by_cases hq : q = p
  · rw [hq, Function.update_self, pending, entry_setPeer_self]
  · rw [Function.update_of_ne hq, pending, entry_setPeer_of_ne m p hq, pending]

@[simp] theorem pending_removePeer :
    (m.removePeer p).pending = Function.update m.pending p [] := by
  funext q
  by_cases hq : q = p
  · rw [hq, Function.update_self, pending, entry_removePeer_self]
  · rw [Function.update_of_ne hq, pending, entry_removePeer_of_ne m p hq, pending]

@[simp] theorem pending_spawnConnTask (kind : TaskKind) :
    (m.spawnConnTask p kind).pending = m.pending := rfl

theorem pending_of_peers {m : PeerManager} {p : NodeId} {info : PeerInfo}
    (h : m.peers p = some info) : m.pending p = info.pendingIntents := by
  simp [pending, entry, h]

@[simp] theorem pending_connectIfInactive : (m.connectIfInactive p).pending = m.pending := by
  unfold connectIfInactive
  dsimp only
  split
  · rw [pending_setPeer, pending_spawnConnTask]
    exact Function.update_eq_self p m.pending
  · rw [pending_setPeer]
    exact Function.update_eq_self p m.pending

/-- The session of the peer takes the intent. -/
def pushes (taken : Bool) : Bool :=
  match (m.entry p).sessionState with
  | .active _ => taken
  | .none => false

theorem pushIntent_eq (info : PeerInfo) (intent : Intent) (taken : Bool) :
    (info.pushIntent intent taken).2.pendingIntents =
      if (match info.sessionState with | .active _ => taken | .none => false) then
        info.pendingIntents
      else info.pendingIntents ++ [intent] := by
  unfold PeerInfo.pushIntent
  cases info.sessionState <;> cases taken <;> rfl

theorem pending_submitIntent (intent : Intent) (taken : Bool) :
    (m.submitIntent p intent taken).pending =
      Function.update m.pending p
        (if m.pushes p taken then m.pending p else m.pending p ++ [intent]) := by
  have hpush := pushIntent_eq (m.entry p) intent taken
  unfold submitIntent
  dsimp only
  split
  · rw [pending_setPeer, hpush]
    rfl
  · rw [pending_connectIfInactive, pending_setPeer, hpush]
    rfl

theorem pending_acceptConn (conn : Connection) (intent : Intent) (taken : Bool) :
    (m.acceptConn p conn intent taken).pending =
      Function.update m.pending p
        (if m.pushes p taken then m.pending p else m.pending p ++ [intent]) := by
  unfold acceptConn
  dsimp only
  rw [pending_setPeer, pending_spawnConnTask, pushIntent_eq]
  rfl

/-- The decision of `handle_connection`. -/
def acceptsConn : Bool :=
  match (m.entry p).connState with
  | .none => true
  | .establishing .none _ => false
  | .establishing (some _) _ => decide (m.nodeId < p)
  | .active _ => false
  | .terminating _ => true

/-- Two managers with the same entries, tasks and sessions. -/
structure Same (m m' : PeerManager) : Prop where
  peers : m'.peers = m.peers
  connTasks : m'.connTasks = m.connTasks
  sessionEvents : m'.sessionEvents = m.sessionEvents
  nextTask : m'.nextTask = m.nextTask
  aborted : m'.aborted = m.aborted
  shuttingDown : m'.shuttingDown = m.shuttingDown

variable {m p} in
theorem Same.entry {m' : PeerManager} (h : Same m m') (q : NodeId) : m'.entry q = m.entry q := by
  rw [PeerManager.entry, PeerManager.entry, h.peers]

variable {m} in
theorem Same.pending {m' : PeerManager} (h : Same m m') : m'.pending = m.pending := by
  funext q
  rw [PeerManager.pending, PeerManager.pending, h.entry]

/-- `handle_connection` accepts the connection, or leaves the peer as it was. -/
theorem handleConnection_cases (conn : Connection) (intent : Intent) (taken : Bool) :
    ∃ m', Same (m.setPeer p (m.entry p)) m' ∧
      (m.acceptsConn p = true ∧
        m.handleConnection p conn (some intent) taken = m'.acceptConn p conn intent taken ∨
      m.acceptsConn p = false ∧ m.handleConnection p conn (some intent) taken = m') := by
  have hclose : ∀ reason, m.acceptsConn p = false →
      m.handleConnection p conn (some intent) taken =
        (m.setPeer p (m.entry p)).closeConn conn errorCodeDuplicateConn reason →
      ∃ m', Same (m.setPeer p (m.entry p)) m' ∧
        (m.acceptsConn p = true ∧
          m.handleConnection p conn (some intent) taken = m'.acceptConn p conn intent taken ∨
        m.acceptsConn p = false ∧ m.handleConnection p conn (some intent) taken = m') :=
    fun reason hno heq => ⟨(m.setPeer p (m.entry p)).closeConn conn errorCodeDuplicateConn reason,
      ⟨rfl, rfl, rfl, rfl, rfl, rfl⟩, Or.inr ⟨hno, heq⟩⟩
  cases hconn : (m.entry p).connState with
  | none =>
      refine ⟨_, ⟨rfl, rfl, rfl, rfl, rfl, rfl⟩, Or.inl ⟨by simp [acceptsConn, hconn], ?_⟩⟩
      simp only [handleConnection, entry_setPeer_self, hconn]
  | establishing ourDial abortHandle =>
      cases ourDial with
      | none =>
          refine hclose "duplicate-already-accepting" (by simp [acceptsConn, hconn]) ?_
          simp only [handleConnection, entry_setPeer_self, hconn]
      | some cancelDial =>
          by_cases hlt : m.nodeId < p
          · refine ⟨{ m.setPeer p (m.entry p) with cancelled := m.cancelled ++ [cancelDial] },
              ⟨rfl, rfl, rfl, rfl, rfl, rfl⟩, Or.inl ⟨by simp [acceptsConn, hconn, hlt], ?_⟩⟩
            simp only [handleConnection, entry_setPeer_self, hconn]
            exact if_pos hlt
          · refine hclose "duplicate-our-dial-wins" (by simp [acceptsConn, hconn, hlt]) ?_
            simp only [handleConnection, entry_setPeer_self, hconn]
            exact if_neg hlt
  | active abortHandle =>
      refine hclose "duplicate-already-active" (by simp [acceptsConn, hconn]) ?_
      simp only [handleConnection, entry_setPeer_self, hconn]
  | terminating abortHandle =>
      refine ⟨_, ⟨rfl, rfl, rfl, rfl, rfl, rfl⟩, Or.inl ⟨by simp [acceptsConn, hconn], ?_⟩⟩
      simp only [handleConnection, entry_setPeer_self, hconn]

theorem pending_setPeer_entry : (m.setPeer p (m.entry p)).pending = m.pending := by
  rw [pending_setPeer]
  exact Function.update_eq_self p m.pending

theorem pending_handleConnection (conn : Connection) (intent : Intent) (taken : Bool) :
    (m.handleConnection p conn (some intent) taken).pending =
      if m.acceptsConn p then
        Function.update m.pending p
          (if m.pushes p taken then m.pending p else m.pending p ++ [intent])
      else m.pending := by
  obtain ⟨m', hsame, ⟨haccepts, heq⟩ | ⟨haccepts, heq⟩⟩ := m.handleConnection_cases p conn intent taken
  · rw [heq, haccepts, if_pos rfl, pending_acceptConn, hsame.pending, pending_setPeer_entry, pushes,
      hsame.entry, entry_setPeer_self]
    rfl
  · rw [heq, haccepts, hsame.pending, pending_setPeer_entry]
    rfl

theorem pending_handleSessionComplete (remainingIntents : List Intent) :
    (m.handleSessionComplete p remainingIntents).pending =
      if (m.peers p).isSome then Function.update m.pending p (m.pending p ++ remainingIntents)
      else m.pending := by
  unfold handleSessionComplete
  cases hp : m.peers p with
  | none =>
      simp only [hp]
      rfl
  | some info =>
      have hpending : m.pending p = info.pendingIntents := pending_of_peers hp
      have hset : ({ m with sessionEvents := Function.update m.sessionEvents p .none }).pending =
          m.pending := rfl
      simp only [hp]
      split
      · split
        · rename_i hempty
          rw [pending_removePeer, pending_setPeer, hset, hpending]
          rw [List.isEmpty_iff] at hempty
          simp [hempty]
        · rw [pending_connectIfInactive, pending_setPeer, hset, hpending]
          rfl
      · rw [pending_setPeer, hset, hpending]
        rfl

/-- What becomes of the pending intents of a peer when one of its tasks is joined: they
stay, the new session takes them, or they are aborted. -/
inductive Outcome where
  | stay
  | session
  | abort
  deriving DecidableEq, Repr

/-- What `handle_conn_output` does with the pending intents. -/
def outcome (out : ConnStep) : Outcome :=
  match out with
  | .established (.error .locallyClosed) => .stay
  | .established (.error (.applicationClosed errorCode)) =>
      if errorCode = errorCodeDuplicateConn then .stay else onFailure
  | .established (.error .other) => onFailure
  | .established (.ok _) => if m.shuttingDown then .abort else .session
  | .done (.ok _) => .stay
  | .done (.error _) => onFailure
  | .closed (.ok _) => .stay
  | .closed (.error _) =>
      match (m.entry p).connState with
      | .terminating _ => .abort
      | _ => .stay
where
  onFailure : Outcome :=
    match (m.entry p).sessionState with
    | .none => .abort
    | .active _ => .stay

variable {m p}

section Outputs

variable {info : PeerInfo} (hp : m.peers p = some info)
include hp

/-- The entry of the peer is set, with the same pending intents. -/
theorem pending_setPeer_stay {info' : PeerInfo} (hsame : info'.pendingIntents = info.pendingIntents) :
    (m.setPeer p info').pending = Function.update m.pending p (m.pending p) := by
  rw [pending_setPeer, hsame, pending_of_peers hp]

theorem pending_onOther :
    (onEstablishFailed.onOther m p info).pending =
      Function.update m.pending p
        (if outcome.onFailure m p = .stay then m.pending p else []) := by
  have hentry : m.entry p = info := by simp [entry, hp]
  unfold onEstablishFailed.onOther outcome.onFailure
  rw [hentry]
  cases info.sessionState with
  | none => simp
  | active session => exact pending_setPeer_stay hp rfl

theorem pending_onEstablishFailed (err : ConnectionError) :
    (m.onEstablishFailed p info err).pending = Function.update m.pending p
      (if m.outcome p (.established (.error err)) = .stay then m.pending p else []) := by
  have hkeep := (Function.update_eq_self p m.pending).symm
  cases err with
  | locallyClosed => exact hkeep
  | applicationClosed code =>
      by_cases hcode : code = errorCodeDuplicateConn
      · simp only [onEstablishFailed, outcome, if_pos hcode]
        split
        · exact pending_setPeer_stay hp rfl
        · exact hkeep
      · simp only [onEstablishFailed, outcome, if_neg hcode]
        exact pending_onOther hp
  | other => exact pending_onOther hp

omit hp in
theorem pending_onEstablished {res : Established} {setup : Bool} {m' : PeerManager}
    (h : m.onEstablished p info res setup = .ok m') :
    m'.pending = Function.update m.pending p
      (if m.outcome p (.established (.ok res)) = .stay then m.pending p else []) := by
  have hnot : ¬ m.outcome p (.established (.ok res)) = .stay := by
    show ¬ (if m.shuttingDown then Outcome.abort else Outcome.session) = .stay
    cases m.shuttingDown <;> simp
  rw [if_neg hnot]
  unfold onEstablished at h
  split at h
  · cases h
  · dsimp only at h
    split at h
    · obtain rfl := Except.ok.inj h
      exact pending_setPeer m p _
    · split at h
      · obtain rfl := Except.ok.inj h
        rw [pending_setPeer]
        show Function.update (m.setPeer p { info with pendingIntents := [] }).pending p [] = _
        rw [pending_setPeer]
        simp
      · cases h

theorem pending_onDone {res : Except Unit Connection} {m' : PeerManager}
    (h : m.onDone p info res = .ok m') :
    m'.pending = Function.update m.pending p
      (if m.outcome p (.done res) = .stay then m.pending p else []) := by
  have hentry : m.entry p = info := by simp [entry, hp]
  unfold onDone at h
  split at h
  · split at h
    · obtain rfl := Except.ok.inj h
      exact pending_setPeer_stay hp rfl
    · cases h
    · rename_i hsession
      obtain rfl := Except.ok.inj h
      simp only [outcome, outcome.onFailure, hentry, hsession]
      exact pending_setPeer_stay hp rfl
    · rename_i hsession
      obtain rfl := Except.ok.inj h
      simp [outcome, outcome.onFailure, hentry, hsession]
  · cases h

theorem pending_onClosed {res : Except Unit Unit} {m' : PeerManager}
    (h : m.onClosed p info res = .ok m') :
    m'.pending = Function.update m.pending p
      (if m.outcome p (.closed res) = .stay then m.pending p else []) := by
  have hentry : m.entry p = info := by simp [entry, hp]
  have hpending := pending_of_peers hp
  unfold onClosed at h
  split at h
  · rename_i hconn
    dsimp only at h
    split at h
    · -- nothing is pending
      rename_i hempty
      rw [List.isEmpty_iff] at hempty
      have hnil : m.pending p = [] := by rw [hpending, hempty]
      rw [hnil, ite_self]
      split at h
      · obtain rfl := Except.ok.inj h
        simp
      · obtain rfl := Except.ok.inj h
        rw [pending_setPeer, hempty]
    · split at h
      · obtain rfl := Except.ok.inj h
        rw [pending_connectIfInactive]
        exact pending_setPeer_stay hp rfl
      · obtain rfl := Except.ok.inj h
        simp [outcome, hentry, hconn, PeerInfo.abortPendingIntents]
  · rename_i hconn
    obtain rfl := Except.ok.inj h
    cases res <;> simp [outcome, hentry, hconn]
  · rename_i hconn
    obtain rfl := Except.ok.inj h
    cases res <;> simp [outcome, hentry, hconn]
  · cases h

omit hp in
theorem pending_handleConnOutput {out : ConnStep} {setup : Bool} {m' : PeerManager}
    (h : m.handleConnOutput p out setup = .ok m') :
    m'.pending = Function.update m.pending p
      (if m.outcome p out = .stay then m.pending p else []) := by
  unfold handleConnOutput at h
  cases hp : m.peers p with
  | none =>
      simp only [hp] at h
      cases h
  | some info =>
      simp only [hp] at h
      cases out with
      | established res =>
          cases res with
          | error err =>
              obtain rfl := Except.ok.inj h
              exact pending_onEstablishFailed hp err
          | ok res => exact pending_onEstablished h
      | done res => exact pending_onDone hp h
      | closed res => exact pending_onClosed hp h

end Outputs

/-! ### The sessions

The events of a session are awaited exactly as long as its peer has it.
-/

/-- The session of each peer, and the session whose events are awaited. -/
def sessions (m : PeerManager) (p : NodeId) : SessionState × Option SessionId :=
  ((m.entry p).sessionState, m.sessionEvents p)

/-- A peer has the session whose events are awaited. -/
def Known (m : PeerManager) : Prop :=
  ∀ p session, m.sessionEvents p = some session ↔ (m.entry p).sessionState = .active session

variable {m' : PeerManager} {info : PeerInfo}

theorem Known.of_sessions (h : m.Known) (hsame : m'.sessions = m.sessions) : m'.Known := by
  intro p session
  obtain ⟨hstate, hevents⟩ := Prod.mk.inj (congrFun hsame p)
  rw [hstate, hevents]
  exact h p session

/-- Only the session of one peer has changed. -/
theorem Known.of_sessions_ne (h : m.Known) (hsame : ∀ q, q ≠ p → m'.sessions q = m.sessions q)
    (hp : ∀ session, m'.sessionEvents p = some session ↔
      (m'.entry p).sessionState = .active session) : m'.Known := by
  intro q session
  by_cases hq : q = p
  · rw [hq]
    exact hp session
  · obtain ⟨hstate, hevents⟩ := Prod.mk.inj (hsame q hq)
    rw [hstate, hevents]
    exact h q session

theorem sessions_setPeer_of_ne {q : NodeId} (hq : q ≠ p) (info : PeerInfo) :
    (m.setPeer p info).sessions q = m.sessions q := by
  rw [sessions, entry_setPeer_of_ne m p hq]
  rfl

theorem sessions_setPeer (h : info.sessionState = (m.entry p).sessionState) :
    (m.setPeer p info).sessions = m.sessions := by
  funext q
  by_cases hq : q = p
  · rw [hq, sessions, entry_setPeer_self, h]
    rfl
  · exact sessions_setPeer_of_ne hq info

theorem sessions_removePeer_of_ne {q : NodeId} (hq : q ≠ p) :
    (m.removePeer p).sessions q = m.sessions q := by
  rw [sessions, entry_removePeer_of_ne m p hq]
  rfl

theorem sessions_removePeer (h : (m.entry p).sessionState = .none) :
    (m.removePeer p).sessions = m.sessions := by
  funext q
  by_cases hq : q = p
  · rw [hq, sessions, sessions, entry_removePeer_self, h]
    rfl
  · exact sessions_removePeer_of_ne hq

theorem sessions_connectIfInactive (m : PeerManager) (p : NodeId) :
    (m.connectIfInactive p).sessions = m.sessions := by
  unfold connectIfInactive
  dsimp only
  split
  · exact sessions_setPeer (m := m.spawnConnTask p .dial) (by rfl)
  · exact sessions_setPeer (by rfl)

theorem pushIntent_sessionState (info : PeerInfo) (intent : Intent) (taken : Bool) :
    (info.pushIntent intent taken).2.sessionState = info.sessionState := by
  unfold PeerInfo.pushIntent
  split <;> rfl

theorem sessions_submitIntent (m : PeerManager) (p : NodeId) (intent : Intent) (taken : Bool) :
    (m.submitIntent p intent taken).sessions = m.sessions := by
  have hpush := sessions_setPeer (pushIntent_sessionState (m.entry p) intent taken)
  unfold submitIntent
  dsimp only
  split
  · exact hpush
  · exact (sessions_connectIfInactive _ p).trans hpush

theorem sessions_handleConnection (m : PeerManager) (p : NodeId) (conn : Connection)
    (intent : Option Intent) (taken : Bool) :
    (m.handleConnection p conn intent taken).sessions = m.sessions := by
  cases intent with
  | none => rfl
  | some intent =>
      obtain ⟨m', hsame, ⟨-, heq⟩ | ⟨-, heq⟩⟩ := m.handleConnection_cases p conn intent taken
      all_goals
        have hm' : m'.sessions = m.sessions := by
          have hset : (m.setPeer p (m.entry p)).sessions = m.sessions := sessions_setPeer rfl
          funext q
          rw [sessions, hsame.entry, hsame.sessionEvents]
          exact congrFun hset q
        rw [heq]
      · refine Eq.trans ?_ hm'
        exact sessions_setPeer (m := m'.spawnConnTask p (.accept conn))
          (pushIntent_sessionState (m'.entry p) intent taken)
      · exact hm'

theorem known_handleSessionComplete (h : m.Known) (p : NodeId) (remaining : List Intent) :
    (m.handleSessionComplete p remaining).Known := by
  have hnone : ∀ session, Function.update m.sessionEvents p .none p = some session ↔
      SessionState.none = .active session := by
    intro session
    rw [Function.update_self]
    exact ⟨nofun, nofun⟩
  have hsessions : ∀ q, q ≠ p → ({ m with
      sessionEvents := Function.update m.sessionEvents p .none } : PeerManager).sessions q =
        m.sessions q := by
    intro q hq
    exact Prod.ext rfl (Function.update_of_ne hq _ _)
  unfold handleSessionComplete
  dsimp only
  split
  · rename_i hpeer
    refine h.of_sessions_ne hsessions fun session => ?_
    have hentry : m.entry p = {} := by simp [entry, hpeer]
    show _ ↔ (m.entry p).sessionState = _
    rw [hentry]
    exact hnone session
  · rename_i info hpeer
    have hset : (({ m with sessionEvents := Function.update m.sessionEvents p .none }).setPeer p
        { info with pendingIntents := info.pendingIntents ++ remaining
                    sessionState := .none }).Known := by
      refine h.of_sessions_ne (fun q hq => (sessions_setPeer_of_ne hq _).trans (hsessions q hq))
        fun session => ?_
      rw [entry_setPeer_self]
      exact hnone session
    split
    · split
      · refine hset.of_sessions (sessions_removePeer ?_)
        rw [entry_setPeer_self]
      · exact hset.of_sessions (sessions_connectIfInactive _ p)
    · exact hset

theorem sessions_onEstablishFailed (hp : m.peers p = some info) (err : ConnectionError) :
    (m.onEstablishFailed p info err).sessions = m.sessions := by
  have hentry : m.entry p = info := by simp [entry, hp]
  have hother : (onEstablishFailed.onOther m p info).sessions = m.sessions := by
    unfold onEstablishFailed.onOther
    split
    · rename_i hsession
      exact sessions_removePeer (hentry ▸ hsession)
    · exact sessions_setPeer (hentry ▸ rfl)
  cases err with
  | locallyClosed => rfl
  | applicationClosed code =>
      unfold onEstablishFailed
      dsimp only
      split
      · split
        · exact sessions_setPeer (hentry ▸ rfl)
        · rfl
      · exact hother
  | other => exact hother

theorem known_onEstablished (h : m.Known) (hp : m.peers p = some info) {res : Established}
    {setup : Bool} (hout : m.onEstablished p info res setup = .ok m') : m'.Known := by
  have hentry : m.entry p = info := by simp [entry, hp]
  unfold onEstablished at hout
  split at hout
  · cases hout
  · dsimp only at hout
    split at hout
    · obtain rfl := Except.ok.inj hout
      exact h.of_sessions (sessions_setPeer (hentry ▸ rfl))
    · split at hout
      · obtain rfl := Except.ok.inj hout
        refine h.of_sessions_ne (p := p) (fun q hq => ?_) fun session => ?_
        · rw [sessions_setPeer_of_ne hq]
          have hset := sessions_setPeer_of_ne (m := m) hq { info with pendingIntents := [] }
          exact Prod.ext (Prod.mk.inj hset).1 (Function.update_of_ne hq _ _)
        · rw [entry_setPeer_self]
          show Function.update m.sessionEvents p (some m.nextSession) p = _ ↔
            SessionState.active m.nextSession = _
          rw [Function.update_self, Option.some_inj, SessionState.active.injEq]
      · cases hout

theorem sessions_onDone (hp : m.peers p = some info) {res : Except Unit Connection}
    (hout : m.onDone p info res = .ok m') : m'.sessions = m.sessions := by
  have hentry : m.entry p = info := by simp [entry, hp]
  unfold onDone at hout
  split at hout
  · split at hout
    · obtain rfl := Except.ok.inj hout
      exact sessions_setPeer (m := m.spawnConnTask p _) (hentry ▸ rfl)
    · cases hout
    · obtain rfl := Except.ok.inj hout
      exact sessions_setPeer (hentry ▸ rfl)
    · rename_i hsession
      obtain rfl := Except.ok.inj hout
      exact sessions_removePeer (hentry ▸ hsession)
  · cases hout

theorem sessions_onClosed (hp : m.peers p = some info) {res : Except Unit Unit}
    (hout : m.onClosed p info res = .ok m') : m'.sessions = m.sessions := by
  have hentry : m.entry p = info := by simp [entry, hp]
  have hset : ∀ pending conn, (m.setPeer p ⟨pending, conn, info.sessionState⟩).sessions =
      m.sessions := fun pending conn => sessions_setPeer (hentry ▸ rfl)
  unfold onClosed at hout
  split at hout
  · dsimp only at hout
    split at hout
    · split at hout
      · rename_i hsession
        obtain rfl := Except.ok.inj hout
        refine (sessions_removePeer ?_).trans (hset _ _)
        rw [entry_setPeer_self]
        exact hsession
      · obtain rfl := Except.ok.inj hout
        exact hset _ _
    · split at hout
      · obtain rfl := Except.ok.inj hout
        exact (sessions_connectIfInactive _ p).trans (hset _ _)
      · obtain rfl := Except.ok.inj hout
        refine (sessions_setPeer ?_).trans (hset _ _)
        rw [entry_setPeer_self]
        rfl
  · obtain rfl := Except.ok.inj hout
    rfl
  · obtain rfl := Except.ok.inj hout
    rfl
  · cases hout

theorem known_handleConnOutput (h : m.Known) {out : ConnStep} {setup : Bool}
    (hout : m.handleConnOutput p out setup = .ok m') : m'.Known := by
  unfold handleConnOutput at hout
  cases hp : m.peers p with
  | none =>
      simp only [hp] at hout
      cases hout
  | some info =>
      simp only [hp] at hout
      cases out with
      | established res =>
          cases res with
          | error err =>
              obtain rfl := Except.ok.inj hout
              exact h.of_sessions (sessions_onEstablishFailed hp err)
          | ok res => exact known_onEstablished h hp hout
      | done res => exact h.of_sessions (sessions_onDone hp hout)
      | closed res => exact h.of_sessions (sessions_onClosed hp hout)

end PeerManager

/-- A manager that goes on has not failed. -/
theorem ManagerState.failed_of_step {s s' : ManagerState} {e : ManagerEvent}
    (hstep : s.step e = some s') : s.failed = none := by
  unfold ManagerState.step at hstep
  dsimp only at hstep
  split at hstep
  · cases hstep
  · assumption

/-! ## The books -/

/-- What an event does with the intents for one peer: which came, which the session of the
peer took, for which an `Abort` was sent, and which were dropped without one. -/
structure Entries where
  peer : NodeId
  came : List Intent := []
  handed : List Intent := []
  aborted : List Intent := []
  dropped : List Intent := []

/-- The entries for an event. An intent that the accept handler has made for a connection
that is then refused does not come. -/
def entries (m : PeerManager) : ManagerEvent → Entries
  | .submitIntent peer intent taken =>
      { peer, came := [intent], handed := if m.pushes peer taken then [intent] else [] }
  | .handleConnection peer _ (some intent) taken =>
      if m.acceptsConn peer then
        { peer, came := [intent], handed := if m.pushes peer taken then [intent] else [] }
      else { peer }
  | .handleConnection peer _ none _ => { peer }
  | .shutdown => { peer := m.nodeId }
  | .sessionComplete peer remainingIntents =>
      { peer, came := remainingIntents,
        dropped := if (m.peers peer).isSome then [] else remainingIntents }
  | .taskJoined task out _ =>
      match m.outcome task.peer out with
      | .stay => { peer := task.peer }
      | .session => { peer := task.peer, handed := m.pending task.peer }
      | .abort => { peer := task.peer, aborted := m.pending task.peer }
  | .taskCancelled task => { peer := task.peer }

/-- The entries account for what is pending before and after. -/
structure Balanced (m m' : PeerManager) (x : Entries) : Prop where
  others : ∀ q, q ≠ x.peer → m'.pending q = m.pending q
  counts : ∀ i, (m.pending x.peer).count i + x.came.count i =
    (m'.pending x.peer).count i + x.handed.count i + x.aborted.count i + x.dropped.count i

theorem Balanced.of_same {m m' : PeerManager} (h : m'.pending = m.pending) (p : NodeId) :
    Balanced m m' { peer := p } where
  others q _ := by rw [h]
  counts i := by simp [h]

/-- A new intent is pending or taken. -/
theorem Balanced.of_push {m m' : PeerManager} {p : NodeId} {intent : Intent} {pushed : Bool}
    (h : m'.pending = Function.update m.pending p
      (if pushed then m.pending p else m.pending p ++ [intent])) :
    Balanced m m' { peer := p, came := [intent], handed := if pushed then [intent] else [] } where
  others q hq := by rw [h, Function.update_of_ne hq]
  counts i := by
    rw [h, Function.update_self]
    cases pushed
    · simp only [Bool.false_eq_true, if_false, List.count_append, List.count_nil]
      omega
    · simp only [if_true, List.count_nil]
      omega

theorem balanced_of_step {s s' : ManagerState} {e : ManagerEvent} (hstep : s.step e = some s')
    (hok : s'.failed = none) : Balanced s.manager s'.manager (entries s.manager e) := by
  unfold ManagerState.step at hstep
  dsimp only at hstep
  split at hstep
  · cases hstep
  · cases e with
    | submitIntent peer intent taken =>
        dsimp only at hstep
        split at hstep
        · cases hstep
        · obtain rfl := Option.some.inj hstep
          exact .of_push (s.manager.pending_submitIntent peer intent taken)
    | handleConnection peer conn intent taken =>
        dsimp only at hstep
        split at hstep
        · cases hstep
        · obtain rfl := Option.some.inj hstep
          cases intent with
          | none => exact .of_same rfl peer
          | some intent =>
              have hpending := s.manager.pending_handleConnection peer conn intent taken
              cases haccepts : s.manager.acceptsConn peer with
              | true =>
                  rw [haccepts, if_pos rfl] at hpending
                  simp only [entries, haccepts, if_true]
                  exact .of_push hpending
              | false =>
                  rw [haccepts, if_neg (by simp)] at hpending
                  simp only [entries, haccepts]
                  exact .of_same hpending peer
    | shutdown =>
        dsimp only at hstep
        split at hstep
        · cases hstep
        · obtain rfl := Option.some.inj hstep
          exact Balanced.of_same (by rfl) s.manager.nodeId
    | sessionComplete peer remainingIntents =>
        dsimp only at hstep
        split at hstep
        · cases hstep
        · obtain rfl := Option.some.inj hstep
          have hpending := s.manager.pending_handleSessionComplete peer remainingIntents
          refine ⟨fun q hq => ?_, fun i => ?_⟩
          · have hq' : q ≠ peer := hq
            show PeerManager.pending _ q = _
            rw [hpending]
            split
            · exact Function.update_of_ne hq' _ _
            · rfl
          · show _ = (PeerManager.pending _ peer).count i + _ + _ +
              (if (s.manager.peers peer).isSome then [] else remainingIntents).count i
            rw [hpending]
            split
            · rw [Function.update_self, List.count_append]
              simp [entries]
            · simp [entries]
    | taskJoined task out setup =>
        dsimp only at hstep
        split at hstep
        · split at hstep
          · rename_i m' hout
            obtain rfl := Option.some.inj hstep
            have hpending := PeerManager.pending_handleConnOutput hout
            have houtcome : (ManagerState.joined s.manager task).outcome task.peer out =
                s.manager.outcome task.peer out := rfl
            have hjoined : (ManagerState.joined s.manager task).pending = s.manager.pending := rfl
            rw [houtcome, hjoined] at hpending
            have hothers : ∀ q, q ≠ task.peer → m'.pending q = s.manager.pending q := fun q hq => by
              rw [hpending, Function.update_of_ne hq]
            have hself : m'.pending task.peer =
                if s.manager.outcome task.peer out = .stay then s.manager.pending task.peer
                else [] := by
              rw [hpending, Function.update_self]
            cases hcase : s.manager.outcome task.peer out with
            | stay =>
                simp only [entries, hcase]
                exact ⟨hothers, fun i => by simp [hself, hcase]⟩
            | session =>
                simp only [entries, hcase]
                exact ⟨hothers, fun i => by simp [hself, hcase]⟩
            | abort =>
                simp only [entries, hcase]
                exact ⟨hothers, fun i => by simp [hself, hcase]⟩
          · obtain rfl := Option.some.inj hstep
            cases hok
        · cases hstep
    | taskCancelled task =>
        dsimp only at hstep
        split at hstep
        · obtain rfl := Option.some.inj hstep
          exact Balanced.of_same (by rfl) task.peer
        · cases hstep

/-- The manager and its books. -/
structure Books where
  state : ManagerState
  came : NodeId → List Intent := fun _ => []
  handed : NodeId → List Intent := fun _ => []
  aborted : NodeId → List Intent := fun _ => []
  dropped : NodeId → List Intent := fun _ => []

namespace Books

/-- Add to the books of one peer. -/
def add (f : NodeId → List Intent) (p : NodeId) (l : List Intent) : NodeId → List Intent :=
  Function.update f p (f p ++ l)

/-- One iteration of the loop, with its entries. -/
def step (b : Books) (e : ManagerEvent) : Option Books :=
  (b.state.step e).map fun state =>
    let x := entries b.state.manager e
    { state
      came := add b.came x.peer x.came
      handed := add b.handed x.peer x.handed
      aborted := add b.aborted x.peer x.aborted
      dropped := add b.dropped x.peer x.dropped }

/-- A new manager. -/
def start (nodeId : NodeId) : Books := { state := .start nodeId }

/-- Every intent that came for the peer is in one place. -/
def Accounted (b : Books) : Prop :=
  ∀ p i, (b.came p).count i = (b.state.manager.pending p).count i + (b.handed p).count i +
    (b.aborted p).count i + (b.dropped p).count i

theorem count_add (f : NodeId → List Intent) (p q : NodeId) (l : List Intent) (i : Intent) :
    (add f p l q).count i = (f q).count i + if q = p then l.count i else 0 := by
  unfold add
  by_cases hq : q = p
  · subst hq
    simp
  · simp [hq]

theorem Accounted.step {b b' : Books} (h : b.Accounted) {e : ManagerEvent}
    (hstep : b.step e = some b') (hok : b'.state.failed = none) : b'.Accounted := by
  obtain ⟨s', hs', rfl⟩ := Option.map_eq_some_iff.mp hstep
  have hbalanced := balanced_of_step hs' hok
  intro q i
  have hq := h q i
  simp only [count_add]
  by_cases hpeer : q = (entries b.state.manager e).peer
  · have hcounts := hbalanced.counts i
    rw [← hpeer] at hcounts
    simp only [if_pos hpeer]
    omega
  · simp only [if_neg hpeer, hbalanced.others q hpeer]
    omega

/-- A session that completes belongs to a known peer, so its intents are kept. -/
theorem dropped_of_step {s s' : ManagerState} {e : ManagerEvent} (hknown : s.manager.Known)
    (hstep : s.step e = some s') : (entries s.manager e).dropped = [] := by
  cases e with
  | submitIntent peer intent taken => rfl
  | handleConnection peer conn intent taken =>
      cases intent with
      | none => rfl
      | some intent =>
          unfold entries
          dsimp only
          split <;> rfl
  | shutdown => rfl
  | sessionComplete peer remaining =>
      unfold ManagerState.step at hstep
      dsimp only at hstep
      split at hstep
      · cases hstep
      · split at hstep
        · cases hstep
        · rename_i hevents
          cases hsession : s.manager.sessionEvents peer with
          | none => exact absurd (by rw [hsession]; rfl) hevents
          | some session =>
              have hactive := (hknown peer session).mp hsession
              have hsome : (s.manager.peers peer).isSome = true := by
                cases hp : s.manager.peers peer with
                | none =>
                    simp only [PeerManager.entry, hp] at hactive
                    cases hactive
                | some info => rfl
              show (if (s.manager.peers peer).isSome then [] else remaining) = []
              rw [hsome]
              rfl
  | taskJoined task out setup =>
      unfold entries
      dsimp only
      split <;> rfl
  | taskCancelled task => rfl

theorem known_of_step {s s' : ManagerState} {e : ManagerEvent} (h : s.manager.Known)
    (hstep : s.step e = some s') : s'.manager.Known := by
  unfold ManagerState.step at hstep
  dsimp only at hstep
  split at hstep
  · cases hstep
  · cases e with
    | submitIntent peer intent taken =>
        dsimp only at hstep
        split at hstep
        · cases hstep
        · obtain rfl := Option.some.inj hstep
          exact h.of_sessions (s.manager.sessions_submitIntent peer intent taken)
    | handleConnection peer conn intent taken =>
        dsimp only at hstep
        split at hstep
        · cases hstep
        · obtain rfl := Option.some.inj hstep
          exact h.of_sessions (s.manager.sessions_handleConnection peer conn intent taken)
    | shutdown =>
        dsimp only at hstep
        split at hstep
        · cases hstep
        · obtain rfl := Option.some.inj hstep
          exact h
    | sessionComplete peer remaining =>
        dsimp only at hstep
        split at hstep
        · cases hstep
        · obtain rfl := Option.some.inj hstep
          exact PeerManager.known_handleSessionComplete h peer remaining
    | taskJoined task out setup =>
        have hjoined : (ManagerState.joined s.manager task).Known := h
        dsimp only at hstep
        split at hstep
        · split at hstep
          · rename_i m' hout
            obtain rfl := Option.some.inj hstep
            exact PeerManager.known_handleConnOutput hjoined hout
          · obtain rfl := Option.some.inj hstep
            exact hjoined
        · cases hstep
    | taskCancelled task =>
        dsimp only at hstep
        split at hstep
        · obtain rfl := Option.some.inj hstep
          exact h
        · cases hstep

/-- No intent is lost and none is in two places: in every run, also while the manager shuts
down, what came for a peer is pending, was taken by a session or ended with an `Abort`. -/
theorem intents_accounted {nodeId : NodeId} {b : Books}
    (h : Reachable Books.step (fun _ _ => True) (start nodeId) b) (hok : b.state.failed = none)
    (p : NodeId) :
    (b.came p).Perm (b.state.manager.pending p ++ b.handed p ++ b.aborted p) := by
  have hinv : b.state.manager.Known ∧ (∀ q, b.dropped q = []) ∧
      (b.state.failed = none → b.Accounted) := by
    refine Reachable.invariant
      (P := fun b => b.state.manager.Known ∧ (∀ q, b.dropped q = []) ∧
        (b.state.failed = none → b.Accounted)) ?_ ?_ h
    · exact ⟨fun _ _ => ⟨nofun, nofun⟩, fun _ => rfl, fun _ _ _ => rfl⟩
    · rintro b e b' ⟨hknown, hdropped, haccounted⟩ - hstep
      obtain ⟨s', hs', rfl⟩ := Option.map_eq_some_iff.mp hstep
      refine ⟨known_of_step hknown hs', ?_, fun hok' => ?_⟩
      · intro q
        show add b.dropped _ _ q = []
        rw [dropped_of_step hknown hs', add, List.append_nil, Function.update_eq_self]
        exact hdropped q
      · exact (haccounted (ManagerState.failed_of_step hs')).step hstep hok'
  obtain ⟨-, hdropped, haccounted⟩ := hinv
  refine List.perm_iff_count.mpr fun i => ?_
  have hcount := haccounted hok p i
  rw [hdropped p, List.count_nil] at hcount
  rw [List.count_append, List.count_append]
  exact hcount

/-- A session takes two intents; one of them is left over and is aborted when the connection
is lost. -/
def Sample.lostConnection : List ManagerEvent :=
  [.submitIntent (.ofByte 1) 1 true, .submitIntent (.ofByte 1) 2 true,
    .taskJoined ⟨0, .ofByte 1, .dial⟩ (.established (.ok ⟨.alfie, 7⟩)) true,
    .sessionComplete (.ofByte 1) [2],
    .taskJoined ⟨1, .ofByte 1, .channels 7 0⟩ (.done (.error ())) true]

theorem intents_accounted_lost :
    ∃ b, run Books.step (start (.ofByte 0)) Sample.lostConnection = some b ∧
      (b.came (.ofByte 1)).Perm
        (b.state.manager.pending (.ofByte 1) ++ b.handed (.ofByte 1) ++ b.aborted (.ofByte 1)) := by
  obtain ⟨b, hb⟩ : ∃ b, run Books.step (start (.ofByte 0)) Sample.lostConnection = some b :=
    ⟨_, rfl⟩
  have hok : b.state.failed = none := by
    obtain rfl := Option.some.inj hb
    rfl
  exact ⟨b, hb, intents_accounted (Reachable.of_run_all hb) hok (.ofByte 1)⟩

end Books

end IrohWillow
