import IrohWillow.Lib.Transition
import IrohWillow.Engine.PeerManager
import IrohWillow.Session.Channels

/-!
# Closing a connection

When all loops of the channels have ended at one end, its peer manager runs
`terminate_gracefully` of `net.rs`: a byte on a stream of its own says goodbye, and the
connection is closed when the other peer has said goodbye or has closed it in this way.
What is still on its way when a connection is closed may be lost.

The connection answers the calls of both ends. It delivers what was written, and reports
that it was closed only if it was; it may also be lost at one end, and calls may time out.
That `SendStream::stopped` has to return before `send_loop` does is left out here.
-/

namespace IrohWillow

open Transition

/-- `ERROR_CODE_FAIL`. -/
def errorCodeFail : Nat := 1

/-- `ERROR_CODE_OK`. -/
def errorCodeOk : Nat := 2

/-- The code of a connection that is dropped without having been closed. -/
def errorCodeDropped : Nat := 0

/-- How `terminate_gracefully` fails. -/
inductive TerminateError where
  | connection (err : ConnectionError)
  | unexpectedClosingByte
  | timeout
  deriving DecidableEq, Repr

/-- What the connection answers to a call. -/
inductive Answer where
  /-- `open_uni` or `write_u8` is done. -/
  | ok
  /-- `accept_uni` returns a stream. -/
  | stream
  /-- `read_exact` returns a byte. -/
  | byte (byte : Byte)
  /-- The call fails because the connection has ended. -/
  | lost (err : ConnectionError)
  /-- `SHUTDOWN_TIMEOUT` has passed. -/
  | timeout
  deriving DecidableEq

/-- Where `wait_for_goodbye_or_graceful_close` waits. -/
inductive Waiting where
  | acceptUni
  | readExact
  deriving DecidableEq, Repr

/-- `wait_for_goodbye_or_graceful_close` goes on, or returns; `none` for an answer to
another call. -/
def waitForGoodbyeOrGracefulClose : Waiting → Answer →
    Option (Waiting ⊕ Except TerminateError Unit)
  | .acceptUni, .stream => some (.inl .readExact)
  | .readExact, .byte byte =>
      if byte = 1 then some (.inr (.ok ())) else some (.inr (.error .unexpectedClosingByte))
  | _, .lost err =>
      if err = .applicationClosed errorCodeOk then some (.inr (.ok ()))
      else some (.inr (.error (.connection err)))
  | _, _ => none

/-- What one end is doing. -/
inductive EndPhase where
  /-- The loops of the channels. -/
  | running
  /-- `open_uni` in `terminate_gracefully` -/
  | openUni
  /-- `write_u8` -/
  | writeU8
  | waiting (at' : Waiting)
  /-- `terminate_gracefully` has returned. -/
  | returned (res : Except TerminateError Unit)
  /-- A loop has failed, and the connection was dropped. -/
  | failed
  deriving DecidableEq

/-- One end of a connection. -/
structure ConnEnd where
  /-- What `send_loop` has written on each channel, and whether it has finished the
  stream. -/
  written : Channel → List Byte := fun _ => []
  finished : Channel → Bool := fun _ => false
  /-- How many bytes of each channel `recv_loop` has read, whether it has ended, and
  whether it has stopped the stream because the session had closed the channel. -/
  read : Channel → Nat := fun _ => 0
  ended : Channel → Bool := fun _ => false
  stopped : Channel → Bool := fun _ => false
  phase : EndPhase := .running
  /-- The byte on the stream that `terminate_gracefully` has opened. -/
  goodbye : Option Byte := none
  /-- The code with which this end has closed the connection. -/
  closed : Option Nat := none

namespace ConnEnd

/-- All loops of the channels have ended. -/
def LoopsEnded (x : ConnEnd) : Prop := ∀ ch ∈ Channel.all, x.finished ch ∧ x.ended ch

instance (x : ConnEnd) : Decidable x.LoopsEnded := inferInstanceAs (Decidable (∀ ch ∈ _, _))

/-- `terminate_gracefully` returns after `conn.close`. -/
def close (x : ConnEnd) (code : Nat) (res : Except TerminateError Unit) : ConnEnd :=
  { x with phase := .returned res, closed := some code }

/-- A step of `terminate_gracefully`, when the call it waits for is answered. -/
def terminateGracefully (x : ConnEnd) (answer : Answer) : Option ConnEnd :=
  match x.phase, answer with
  | .openUni, .ok => some { x with phase := .writeU8 }
  -- `?` returns, and the connection is dropped
  | .openUni, .lost err => some (x.close errorCodeDropped (.error (.connection err)))
  | .writeU8, .ok => some { x with phase := .waiting .acceptUni, goodbye := some 1 }
  | .writeU8, .lost err => some (x.close errorCodeDropped (.error (.connection err)))
  | .waiting _, .timeout => some (x.close errorCodeFail (.error .timeout))
  | .waiting w, answer =>
      match waitForGoodbyeOrGracefulClose w answer with
      | none => none
      | some (.inl w') => some { x with phase := .waiting w' }
      | some (.inr (.ok ())) => some (x.close errorCodeOk (.ok ()))
      | some (.inr (.error err)) => some (x.close errorCodeFail (.error err))
  | _, _ => none

end ConnEnd

/-- Both ends of a connection. -/
structure Closing where
  ends : Role → ConnEnd := fun _ => {}

namespace Closing

/-- A step of one end. -/
inductive Action where
  /-- `send_loop` writes a chunk. -/
  | write (p : Role) (ch : Channel) (bytes : List Byte)
  /-- `send_loop` finishes the stream and ends. -/
  | finish (p : Role) (ch : Channel)
  /-- `recv_loop` reads a chunk. -/
  | read (p : Role) (ch : Channel) (len : Nat)
  /-- `recv_loop` has read the end of the stream. -/
  | endOfStream (p : Role) (ch : Channel)
  /-- `recv_loop` stops the stream: the session has closed the channel. -/
  | stop (p : Role) (ch : Channel)
  /-- A loop fails. -/
  | fail (p : Role)
  /-- All loops have ended, and the connection is handed to `terminate_gracefully`. -/
  | terminate (p : Role)
  | answer (p : Role) (a : Answer)

/-- What the connection can answer to the end `p`. -/
def possible (s : Closing) (p : Role) : Answer → Bool
  | .ok => true
  | .stream => (s.ends p.other).goodbye.isSome
  | .byte byte => decide ((s.ends p.other).goodbye = some byte)
  | .lost .locallyClosed => (s.ends p).closed.isSome
  | .lost (.applicationClosed code) => decide ((s.ends p.other).closed = some code)
  | .lost .other => true
  | .timeout => true

/-- Set one end. -/
def setEnd (s : Closing) (p : Role) (x : ConnEnd) : Closing :=
  ⟨Function.update s.ends p x⟩

/-- One step; `none` when it is not possible. -/
def step (s : Closing) : Action → Option Closing
  | .write p ch bytes =>
      let x := s.ends p
      if x.phase = .running ∧ x.finished ch = false then
        some (s.setEnd p { x with written := Function.update x.written ch (x.written ch ++ bytes) })
      else none
  | .finish p ch =>
      let x := s.ends p
      if x.phase = .running ∧ x.finished ch = false then
        some (s.setEnd p { x with finished := Function.update x.finished ch true })
      else none
  | .read p ch len =>
      let x := s.ends p
      if x.phase = .running ∧ x.ended ch = false ∧
          x.read ch + len ≤ ((s.ends p.other).written ch).length then
        some (s.setEnd p { x with read := Function.update x.read ch (x.read ch + len) })
      else none
  | .endOfStream p ch =>
      let x := s.ends p
      if x.phase = .running ∧ x.ended ch = false ∧ (s.ends p.other).finished ch ∧
          x.read ch = ((s.ends p.other).written ch).length then
        some (s.setEnd p { x with ended := Function.update x.ended ch true })
      else none
  | .stop p ch =>
      let x := s.ends p
      if x.phase = .running ∧ x.ended ch = false then
        some (s.setEnd p { x with
          ended := Function.update x.ended ch true
          stopped := Function.update x.stopped ch true })
      else none
  | .fail p =>
      let x := s.ends p
      if x.phase = .running then
        some (s.setEnd p { x with phase := .failed, closed := some errorCodeDropped })
      else none
  | .terminate p =>
      let x := s.ends p
      if x.phase = .running ∧ x.LoopsEnded then some (s.setEnd p { x with phase := .openUni })
      else none
  | .answer p a =>
      if s.possible p a then ((s.ends p).terminateGracefully a).map (s.setEnd p) else none

end Closing

/-! ## One step of the termination -/

namespace ConnEnd

variable {x x' y y' : ConnEnd}

/-- What a step of `terminate_gracefully` does. -/
inductive Terminates (x : ConnEnd) : Answer → ConnEnd → Prop
  | opened (hphase : x.phase = .openUni) : Terminates x .ok { x with phase := .writeU8 }
  | written (hphase : x.phase = .writeU8) :
      Terminates x .ok { x with phase := .waiting .acceptUni, goodbye := some 1 }
  | dropped {err : ConnectionError} (hphase : x.phase = .openUni ∨ x.phase = .writeU8) :
      Terminates x (.lost err) (x.close errorCodeDropped (.error (.connection err)))
  | accepted (hphase : x.phase = .waiting .acceptUni) :
      Terminates x .stream { x with phase := .waiting .readExact }
  | goodbye (hphase : x.phase = .waiting .readExact) :
      Terminates x (.byte 1) (x.close errorCodeOk (.ok ()))
  | closed {w : Waiting} (hphase : x.phase = .waiting w) :
      Terminates x (.lost (.applicationClosed errorCodeOk)) (x.close errorCodeOk (.ok ()))
  | unexpected {byte : Byte} (hphase : x.phase = .waiting .readExact) (hbyte : byte ≠ 1) :
      Terminates x (.byte byte) (x.close errorCodeFail (.error .unexpectedClosingByte))
  | lost {w : Waiting} {err : ConnectionError} (hphase : x.phase = .waiting w)
      (herr : err ≠ .applicationClosed errorCodeOk) :
      Terminates x (.lost err) (x.close errorCodeFail (.error (.connection err)))
  | timeout {w : Waiting} (hphase : x.phase = .waiting w) :
      Terminates x .timeout (x.close errorCodeFail (.error .timeout))

theorem terminates_of_eq {a : Answer} (h : x.terminateGracefully a = some x') :
    x.Terminates a x' := by
  cases hphase : x.phase with
  | openUni =>
      cases a with
      | ok =>
          simp only [terminateGracefully, hphase] at h
          obtain rfl := Option.some.inj h
          exact .opened hphase
      | lost err =>
          simp only [terminateGracefully, hphase] at h
          obtain rfl := Option.some.inj h
          exact .dropped (Or.inl hphase)
      | _ => simp [terminateGracefully, hphase] at h
  | writeU8 =>
      cases a with
      | ok =>
          simp only [terminateGracefully, hphase] at h
          obtain rfl := Option.some.inj h
          exact .written hphase
      | lost err =>
          simp only [terminateGracefully, hphase] at h
          obtain rfl := Option.some.inj h
          exact .dropped (Or.inr hphase)
      | _ => simp [terminateGracefully, hphase] at h
  | waiting w =>
      cases a with
      | ok => cases w <;> simp [terminateGracefully, hphase, waitForGoodbyeOrGracefulClose] at h
      | timeout =>
          simp only [terminateGracefully, hphase] at h
          obtain rfl := Option.some.inj h
          exact .timeout hphase
      | stream =>
          cases w with
          | acceptUni =>
              simp only [terminateGracefully, hphase, waitForGoodbyeOrGracefulClose] at h
              obtain rfl := Option.some.inj h
              exact .accepted hphase
          | readExact => simp [terminateGracefully, hphase, waitForGoodbyeOrGracefulClose] at h
      | byte byte =>
          cases w with
          | acceptUni => simp [terminateGracefully, hphase, waitForGoodbyeOrGracefulClose] at h
          | readExact =>
              simp only [terminateGracefully, hphase, waitForGoodbyeOrGracefulClose] at h
              by_cases hbyte : byte = 1
              · subst hbyte
                obtain rfl := Option.some.inj h
                exact .goodbye hphase
              · simp only [if_neg hbyte] at h
                obtain rfl := Option.some.inj h
                exact .unexpected hphase hbyte
      | lost err =>
          by_cases herr : err = .applicationClosed errorCodeOk
          · subst herr
            cases w <;>
              · simp only [terminateGracefully, hphase, waitForGoodbyeOrGracefulClose] at h
                obtain rfl := Option.some.inj h
                exact .closed hphase
          · cases w <;>
              · simp only [terminateGracefully, hphase, waitForGoodbyeOrGracefulClose,
                  if_neg herr] at h
                obtain rfl := Option.some.inj h
                exact .lost hphase herr
  | running => simp [terminateGracefully, hphase] at h
  | returned res => simp [terminateGracefully, hphase] at h
  | failed => simp [terminateGracefully, hphase] at h

/-! ## What holds at one end -/

/-- What the end has done before it says goodbye, and what it knows of the other end. -/
structure Inv (x y : ConnEnd) : Prop where
  loops : x.phase ≠ .running → x.phase ≠ .failed → ∀ ch, x.finished ch = true ∧ x.ended ch = true
  drained : ∀ ch, x.ended ch = true →
    x.stopped ch = true ∨ y.finished ch = true ∧ x.read ch = (y.written ch).length
  silent : x.phase = .running ∨ x.phase = .failed ∨ x.phase = .openUni ∨ x.phase = .writeU8 →
    x.goodbye = none
  byte : x.goodbye = none ∨ x.goodbye = some 1
  said : (∃ w, x.phase = .waiting w) ∨ x.phase = .returned (.ok ()) → x.goodbye = some 1
  heard : x.phase = .waiting .readExact ∨ x.phase = .returned (.ok ()) → y.goodbye = some 1
  opened : (∀ res, x.phase ≠ .returned res) → x.phase ≠ .failed → x.closed = none
  code : x.closed = some errorCodeOk ↔ x.phase = .returned (.ok ())
  error : ∀ e, x.phase = .returned (.error e) → e = .timeout ∨ e = .connection .other ∨
    ∃ code, code ≠ errorCodeOk ∧ e = .connection (.applicationClosed code) ∧ y.closed = some code

theorem inv_start : Inv {} {} where
  loops h := absurd rfl h
  drained _ h := nomatch h
  silent _ := rfl
  byte := Or.inl rfl
  said h := by simp at h
  heard h := by simp at h
  opened _ _ := rfl
  code := by simp
  error _ h := nomatch h

/-- What a step of the other end does not take back. -/
structure Keeps (y y' : ConnEnd) : Prop where
  finished : ∀ ch, y.finished ch = true → y'.finished ch = true ∧ y'.written ch = y.written ch
  goodbye : ∀ byte, y.goodbye = some byte → y'.goodbye = some byte
  closed : ∀ code, y.closed = some code → y'.closed = some code

theorem Inv.peer (h : Inv x y) (hk : Keeps y y') : Inv x y' where
  loops := h.loops
  drained ch hch := by
    rcases h.drained ch hch with hstopped | ⟨hfinished, hread⟩
    · exact Or.inl hstopped
    · obtain ⟨hfinished', hwritten⟩ := hk.finished ch hfinished
      exact Or.inr ⟨hfinished', by rw [hread, hwritten]⟩
  silent := h.silent
  byte := h.byte
  said := h.said
  heard hphase := hk.goodbye _ (h.heard hphase)
  opened := h.opened
  code := h.code
  error e he := by
    rcases h.error e he with htimeout | hother | ⟨code, hcode, he, hclosed⟩
    · exact Or.inl htimeout
    · exact Or.inr (Or.inl hother)
    · exact Or.inr (Or.inr ⟨code, hcode, he, hk.closed code hclosed⟩)

/-- A step of the loops keeps the phase. -/
theorem Inv.loop (h : Inv x y) (hrunning : x.phase = .running) (hphase : x'.phase = x.phase)
    (hgoodbye : x'.goodbye = x.goodbye) (hclosed : x'.closed = x.closed)
    (hdrained : ∀ ch, x'.ended ch = true →
      x'.stopped ch = true ∨ y.finished ch = true ∧ x'.read ch = (y.written ch).length) :
    Inv x' y where
  loops hne := absurd (hphase.trans hrunning) hne
  drained := hdrained
  silent _ := by rw [hgoodbye, h.silent (Or.inl hrunning)]
  byte := by rw [hgoodbye]; exact h.byte
  said hp := by rw [hphase, hrunning] at hp; simp at hp
  heard hp := by rw [hphase, hrunning] at hp; simp at hp
  opened hr hf := by rw [hclosed]; exact h.opened (by simpa [hphase] using hr) (hphase ▸ hf)
  code := by rw [hclosed, hphase]; exact h.code
  error e he := by rw [hphase, hrunning] at he; cases he

/-- `terminate_gracefully` returns an error. -/
theorem Inv.close_error (h : Inv x y) (hrunning : x.phase ≠ .running) (hfailed : x.phase ≠ .failed)
    {code : Nat} (hcode : code ≠ errorCodeOk) {e : TerminateError}
    (he : e = .timeout ∨ e = .connection .other ∨
      ∃ code, code ≠ errorCodeOk ∧ e = .connection (.applicationClosed code) ∧
        y.closed = some code) : Inv (x.close code (.error e)) y where
  loops _ _ := h.loops hrunning hfailed
  drained := h.drained
  silent hp := by simp [close] at hp
  byte := h.byte
  said hp := by simp [close] at hp
  heard hp := by simp [close] at hp
  opened hr _ := absurd rfl (hr _)
  code := by simp [close, hcode]
  error e' he' := by
    obtain rfl := Except.error.inj (EndPhase.returned.inj he')
    exact he

/-- `terminate_gracefully` returns without an error. -/
theorem Inv.close_ok (h : Inv x y) {w : Waiting} (hphase : x.phase = .waiting w)
    (hheard : y.goodbye = some 1) : Inv (x.close errorCodeOk (.ok ())) y where
  loops _ _ := h.loops (by rw [hphase]; simp) (by rw [hphase]; simp)
  drained := h.drained
  silent hp := by simp [close] at hp
  byte := h.byte
  said _ := h.said (Or.inl ⟨w, hphase⟩)
  heard _ := hheard
  opened hr _ := absurd rfl (hr _)
  code := by simp [close]
  error e he := by cases he

theorem Keeps.of_eq (hfinished : y'.finished = y.finished) (hwritten : y'.written = y.written)
    (hgoodbye : y'.goodbye = y.goodbye) (hclosed : ∀ code, y.closed = some code →
      y'.closed = some code) : Keeps y y' where
  finished ch h := by rw [hfinished, hwritten]; exact ⟨h, rfl⟩
  goodbye byte h := by rw [hgoodbye]; exact h
  closed := hclosed

/-- An end that has not closed the connection may close it. -/
theorem keeps_close (hopen : y.closed = none) (code : Nat)
    (res : Except TerminateError Unit) : Keeps y (y.close code res) :=
  .of_eq rfl rfl rfl fun code hcode => by rw [hopen] at hcode; cases hcode

end ConnEnd

/-! ## Both ends -/

namespace Closing

open ConnEnd

variable {s s' : Closing}

/-- The invariant of both ends. -/
def Inv (s : Closing) : Prop := ∀ p, ConnEnd.Inv (s.ends p) (s.ends p.other)

theorem Inv.setEnd (h : s.Inv) {p : Role} {x' : ConnEnd}
    (hx : ConnEnd.Inv x' (s.ends p.other)) (hk : Keeps (s.ends p) x') : (s.setEnd p x').Inv := by
  refine Role.forall_of p ?_ ?_
  · show ConnEnd.Inv (Function.update s.ends p x' p) (Function.update s.ends p x' p.other)
    rw [Function.update_self, Function.update_of_ne p.other_ne]
    exact hx
  · show ConnEnd.Inv (Function.update s.ends p x' p.other) (Function.update s.ends p x' p.other.other)
    rw [Role.other_other, Function.update_self, Function.update_of_ne p.other_ne]
    have hpeer := h p.other
    rw [Role.other_other] at hpeer
    exact hpeer.peer hk

/-- The call of `terminate_gracefully` is answered. -/
theorem Inv.answer (h : s.Inv) {p : Role} {a : Answer} {x' : ConnEnd}
    (hpossible : s.possible p a = true) (hx : (s.ends p).Terminates a x') :
    (s.setEnd p x').Inv := by
  have hown := h p
  have hpeer := h p.other
  rw [Role.other_other] at hpeer
  have hnone : ∀ phase, (s.ends p).phase = phase → (∀ res, phase ≠ .returned res) →
      phase ≠ .failed → (s.ends p).closed = none := by
    rintro phase rfl hr hf
    exact hown.opened hr hf
  -- an error that comes from the other end has the code of its close
  have hlost : ∀ err, s.possible p (.lost err) = true → (s.ends p).closed = none →
      err ≠ .applicationClosed errorCodeOk → err = .other ∨
        ∃ code, code ≠ errorCodeOk ∧ err = .applicationClosed code ∧
          (s.ends p.other).closed = some code := by
    intro err hp hclosed hne
    cases err with
    | locallyClosed => simp [possible, hclosed] at hp
    | applicationClosed code =>
        refine Or.inr ⟨code, fun hcode => hne (by rw [hcode]), rfl, of_decide_eq_true hp⟩
    | other => exact Or.inl rfl
  have herror : ∀ err, (err = .other ∨ ∃ code, code ≠ errorCodeOk ∧
      err = .applicationClosed code ∧ (s.ends p.other).closed = some code) →
      TerminateError.connection err = .timeout ∨ TerminateError.connection err = .connection .other ∨
        ∃ code, code ≠ errorCodeOk ∧
          TerminateError.connection err = .connection (.applicationClosed code) ∧
          (s.ends p.other).closed = some code := by
    rintro err (rfl | ⟨code, hcode, rfl, hclosed⟩)
    · exact Or.inr (Or.inl rfl)
    · exact Or.inr (Or.inr ⟨code, hcode, rfl, hclosed⟩)
  cases hx with
  | opened hphase =>
      have hsilent := hown.silent (Or.inr (Or.inr (Or.inl hphase)))
      have hclosed := hnone _ hphase (by simp) (by simp)
      refine h.setEnd ⟨?_, hown.drained, fun _ => hsilent, hown.byte, by simp, by simp,
        fun _ _ => hclosed, ?_, by simp⟩ (.of_eq rfl rfl rfl fun _ h => h)
      · exact fun _ _ => hown.loops (by rw [hphase]; simp) (by rw [hphase]; simp)
      · simp [hclosed]
  | written hphase =>
      have hsilent := hown.silent (Or.inr (Or.inr (Or.inr hphase)))
      have hclosed := hnone _ hphase (by simp) (by simp)
      refine h.setEnd ⟨?_, hown.drained, by simp, Or.inr rfl, fun _ => rfl, by simp,
        fun _ _ => hclosed, ?_, by simp⟩ ⟨fun _ hf => ⟨hf, rfl⟩, ?_, fun _ h => h⟩
      · exact fun _ _ => hown.loops (by rw [hphase]; simp) (by rw [hphase]; simp)
      · simp [hclosed]
      · intro byte hbyte
        rw [hsilent] at hbyte
        cases hbyte
  | @dropped err hphase =>
      have hphase' : (s.ends p).phase ≠ .running ∧ (s.ends p).phase ≠ .failed ∧
          ∀ res, (s.ends p).phase ≠ .returned res := by
        rcases hphase with hphase | hphase <;> simp [hphase]
      have hclosed := hown.opened hphase'.2.2 hphase'.2.1
      have hsilent : (s.ends p).goodbye = none := hown.silent (Or.inr (Or.inr hphase))
      refine h.setEnd (hown.close_error hphase'.1 hphase'.2.1 (by decide) ?_)
        (keeps_close hclosed _ _)
      refine herror err (hlost err hpossible hclosed ?_)
      rintro rfl
      -- the other end would have heard our goodbye
      have hheard := hpeer.heard (Or.inr (hpeer.code.mp (of_decide_eq_true hpossible)))
      rw [hsilent] at hheard
      cases hheard
  | accepted hphase =>
      have hclosed := hnone _ hphase (by simp) (by simp)
      have hheard : (s.ends p.other).goodbye = some 1 := by
        rcases hpeer.byte with hbyte | hbyte
        · simp [possible, hbyte] at hpossible
        · exact hbyte
      refine h.setEnd ⟨?_, hown.drained, by simp, hown.byte, ?_, fun _ => hheard,
        fun _ _ => hclosed, ?_, by simp⟩ (.of_eq rfl rfl rfl fun _ h => h)
      · exact fun _ _ => hown.loops (by rw [hphase]; simp) (by rw [hphase]; simp)
      · exact fun _ => hown.said (Or.inl ⟨_, hphase⟩)
      · simp [hclosed]
  | goodbye hphase =>
      have hclosed := hnone _ hphase (by simp) (by simp)
      exact h.setEnd (hown.close_ok hphase (of_decide_eq_true hpossible))
        (keeps_close hclosed _ _)
  | closed hphase =>
      have hclosed := hnone _ hphase (by simp) (by simp)
      have hreturned := hpeer.code.mp (of_decide_eq_true hpossible)
      exact h.setEnd (hown.close_ok hphase (hpeer.said (Or.inr hreturned)))
        (keeps_close hclosed _ _)
  | unexpected hphase hbyte =>
      have hgoodbye : (s.ends p.other).goodbye = some _ := of_decide_eq_true hpossible
      rcases hpeer.byte with hnone' | hone
      · rw [hnone'] at hgoodbye
        cases hgoodbye
      · rw [hone] at hgoodbye
        exact absurd (Option.some.inj hgoodbye).symm hbyte
  | @lost w err hphase herr =>
      have hclosed := hnone _ hphase (by simp) (by simp)
      exact h.setEnd (hown.close_error (by rw [hphase]; simp) (by rw [hphase]; simp) (by decide)
        (herror err (hlost err hpossible hclosed herr))) (keeps_close hclosed _ _)
  | timeout hphase =>
      have hclosed := hnone _ hphase (by simp) (by simp)
      exact h.setEnd (hown.close_error (by rw [hphase]; simp) (by rw [hphase]; simp) (by decide)
        (Or.inl rfl)) (keeps_close hclosed _ _)

theorem Inv.step (h : s.Inv) {a : Action} (hstep : s.step a = some s') : s'.Inv := by
  cases a with
  | write p ch bytes =>
      simp only [Closing.step] at hstep
      split at hstep
      · rename_i hguard
        obtain rfl := Option.some.inj hstep
        refine h.setEnd ((h p).loop hguard.1 rfl rfl rfl (h p).drained) ⟨?_, fun _ h => h, fun _ h => h⟩
        intro ch' hch'
        have hne : ch' ≠ ch := by
          rintro rfl
          rw [hguard.2] at hch'
          cases hch'
        exact ⟨hch', Function.update_of_ne hne _ _⟩
      · cases hstep
  | finish p ch =>
      simp only [Closing.step] at hstep
      split at hstep
      · rename_i hguard
        obtain rfl := Option.some.inj hstep
        refine h.setEnd ((h p).loop hguard.1 rfl rfl rfl (h p).drained) ⟨?_, fun _ h => h, fun _ h => h⟩
        intro ch' hch'
        refine ⟨?_, rfl⟩
        show Function.update (s.ends p).finished ch true ch' = true
        by_cases hch : ch' = ch
        · rw [hch, Function.update_self]
        · rw [Function.update_of_ne hch]
          exact hch'
      · cases hstep
  | read p ch len =>
      simp only [Closing.step] at hstep
      split at hstep
      · rename_i hguard
        obtain rfl := Option.some.inj hstep
        refine h.setEnd ((h p).loop hguard.1 rfl rfl rfl fun ch' hch' => ?_)
          (.of_eq rfl rfl rfl fun _ h => h)
        have hne : ch' ≠ ch := by
          rintro rfl
          exact absurd (hguard.2.1.symm.trans hch') (by simp)
        show _ ∨ _ ∧ Function.update _ ch _ ch' = _
        rw [Function.update_of_ne hne]
        exact (h p).drained ch' hch'
      · cases hstep
  | endOfStream p ch =>
      simp only [Closing.step] at hstep
      split at hstep
      · rename_i hguard
        obtain rfl := Option.some.inj hstep
        refine h.setEnd ((h p).loop hguard.1 rfl rfl rfl fun ch' hch' => ?_)
          (.of_eq rfl rfl rfl fun _ h => h)
        by_cases hch : ch' = ch
        · subst hch
          exact Or.inr hguard.2.2
        · have hch'' : Function.update (s.ends p).ended ch true ch' = true := hch'
          rw [Function.update_of_ne hch] at hch''
          exact (h p).drained ch' hch''
      · cases hstep
  | stop p ch =>
      simp only [Closing.step] at hstep
      split at hstep
      · rename_i hguard
        obtain rfl := Option.some.inj hstep
        refine h.setEnd ((h p).loop hguard.1 rfl rfl rfl fun ch' hch' => ?_)
          (.of_eq rfl rfl rfl fun _ h => h)
        show Function.update (s.ends p).stopped ch true ch' = true ∨ _
        by_cases hch : ch' = ch
        · rw [hch, Function.update_self]
          exact Or.inl rfl
        · have hch'' : Function.update (s.ends p).ended ch true ch' = true := hch'
          rw [Function.update_of_ne hch] at hch'' ⊢
          exact (h p).drained ch' hch''
      · cases hstep
  | fail p =>
      simp only [Closing.step] at hstep
      split at hstep
      · rename_i hrunning
        obtain rfl := Option.some.inj hstep
        have hclosed := (h p).opened (by rw [hrunning]; simp) (by rw [hrunning]; simp)
        refine h.setEnd ⟨fun _ hf => absurd rfl hf, (h p).drained,
          fun _ => (h p).silent (Or.inl hrunning), (h p).byte, by simp, by simp,
          fun _ hf => absurd rfl hf, ?_, by simp⟩ (.of_eq rfl rfl rfl fun code hcode => ?_)
        · simp [errorCodeDropped, errorCodeOk]
        · rw [hclosed] at hcode
          cases hcode
      · cases hstep
  | terminate p =>
      simp only [Closing.step] at hstep
      split at hstep
      · rename_i hguard
        obtain rfl := Option.some.inj hstep
        have hclosed := (h p).opened (by rw [hguard.1]; simp) (by rw [hguard.1]; simp)
        refine h.setEnd ⟨fun _ _ ch => hguard.2 ch ch.mem_all, (h p).drained,
          fun _ => (h p).silent (Or.inl hguard.1), (h p).byte, by simp, by simp,
          fun _ _ => hclosed, ?_, by simp⟩ (.of_eq rfl rfl rfl fun _ h => h)
        simp [hclosed]
      · cases hstep
  | answer p a =>
      simp only [Closing.step] at hstep
      split at hstep
      · rename_i hpossible
        obtain ⟨x', hx', rfl⟩ := Option.map_eq_some_iff.mp hstep
        exact h.answer hpossible (terminates_of_eq hx')
      · cases hstep

theorem inv_of_reachable {Allowed : Closing → Action → Prop}
    (hs : Reachable step Allowed {} s) : s.Inv :=
  hs.invariant (fun _ => ConnEnd.inv_start) fun _ _ _ h _ hstep => h.step hstep

/-- An end that has said goodbye has ended its loops. -/
theorem Inv.ended_of_goodbye (h : s.Inv) {p : Role} (hgoodbye : (s.ends p).goodbye = some 1) :
    (s.ends p).phase ≠ .failed ∧
      ∀ ch, (s.ends p).finished ch = true ∧ (s.ends p).ended ch = true := by
  have hnot : ∀ phase, (s.ends p).phase = phase → phase ≠ .running ∧ phase ≠ .failed := by
    rintro phase rfl
    refine ⟨fun hphase => ?_, fun hphase => ?_⟩
    · exact absurd ((h p).silent (Or.inl hphase)) (by rw [hgoodbye]; simp)
    · exact absurd ((h p).silent (Or.inr (Or.inl hphase))) (by rw [hgoodbye]; simp)
  exact ⟨(hnot _ rfl).2, (h p).loops (hnot _ rfl).1 (hnot _ rfl).2⟩

/-- What is known at an end whose `terminate_gracefully` has returned without an error. -/
structure Graceful (s : Closing) (p : Role) : Prop where
  /-- The other peer has said goodbye. -/
  heard : (s.ends p.other).goodbye = some 1
  /-- All loops of both peers have ended. -/
  ended : ∀ p' ch, (s.ends p').finished ch = true ∧ (s.ends p').ended ch = true
  /-- All bytes were read, but for channels that the reading session had closed. -/
  delivered : ∀ p' ch, (s.ends p').stopped ch = true ∨
    (s.ends p').read ch = ((s.ends p'.other).written ch).length
  /-- The other peer did not fail, and `terminate_gracefully` fails there only for a
  timeout or a lost connection. -/
  other : (s.ends p.other).phase ≠ .failed ∧
    ∀ e, (s.ends p.other).phase = .returned (.error e) → e = .timeout ∨ e = .connection .other

/-- **No end closes too early.** In every run, whatever fails, times out or is lost: when
`terminate_gracefully` has returned without an error at one end, or this end has closed
the connection with `ERROR_CODE_OK`, then the other peer has said goodbye, both peers have
ended their loops, and nothing that was written on a channel is lost. -/
theorem graceful_of_ok (hs : Reachable step (fun _ _ => True) {} s) {p : Role}
    (hok : (s.ends p).phase = .returned (.ok ()) ∨ (s.ends p).closed = some errorCodeOk) :
    s.Graceful p := by
  have h := inv_of_reachable hs
  have hphase : (s.ends p).phase = .returned (.ok ()) := hok.elim id (h p).code.mp
  have hheard := (h p).heard (Or.inr hphase)
  have hended : ∀ p' ch, (s.ends p').finished ch = true ∧ (s.ends p').ended ch = true :=
    Role.forall_of p (h.ended_of_goodbye ((h p).said (Or.inr hphase))).2
      (h.ended_of_goodbye hheard).2
  refine ⟨hheard, hended, fun p' ch => ?_, (h.ended_of_goodbye hheard).1, fun e he => ?_⟩
  · exact ((h p').drained ch (hended p' ch).2).imp id And.right
  · rcases (h p.other).error e he with htimeout | hother | ⟨code, hcode, -, hclosed⟩
    · exact Or.inl htimeout
    · exact Or.inr hother
    · rw [Role.other_other, (h p).code.mpr hphase] at hclosed
      exact absurd (Option.some.inj hclosed).symm hcode

/-- A byte on the control channel, and then both peers end their loops. -/
def Sample.loops : List Action :=
  [.write .alfie .control [7], .read .betty .control 1] ++
    Channel.all.flatMap (fun ch => [.finish .alfie ch, .finish .betty ch, .endOfStream .alfie ch,
      .endOfStream .betty ch]) ++
    [.terminate .alfie, .terminate .betty]

/-- Alfie hears the goodbye, and Betty sees that the connection was closed. -/
def Sample.answers : List Action :=
  [.answer .alfie .ok, .answer .alfie .ok, .answer .betty .ok, .answer .betty .ok,
    .answer .alfie .stream, .answer .alfie (.byte 1),
    .answer .betty (.lost (.applicationClosed errorCodeOk))]

set_option maxRecDepth 8000 in
theorem graceful_of_ok_run :
    ∃ s, run step {} (Sample.loops ++ Sample.answers) = some s ∧ s.Graceful .betty := by
  obtain ⟨s, hs⟩ : ∃ s, run step {} (Sample.loops ++ Sample.answers) = some s := ⟨_, rfl⟩
  refine ⟨s, hs, graceful_of_ok (Reachable.of_run_all hs) (Or.inl ?_)⟩
  obtain rfl := Option.some.inj hs
  rfl

/-! ## Runs without faults -/

/-- No loop fails, nothing is lost and nothing times out. -/
def FaultFree : Closing → Action → Prop
  | _, .fail _ => False
  | _, .answer _ .timeout => False
  | _, .answer _ (.lost .other) => False
  | _, _ => True

instance (s : Closing) (a : Action) : Decidable (FaultFree s a) := by
  unfold FaultFree
  split <;> infer_instance

/-- The end has not failed. -/
def Fine (x : ConnEnd) : Prop := x.phase ≠ .failed ∧ ∀ e, x.phase ≠ .returned (.error e)

theorem Fine.of_phase {x x' : ConnEnd} (h : Fine x) (hphase : x'.phase = x.phase) : Fine x' := by
  unfold Fine
  rw [hphase]
  exact h

theorem fine_setEnd (h : ∀ p, Fine (s.ends p)) {p : Role} {x' : ConnEnd} (hx : Fine x') :
    ∀ p', Fine ((s.setEnd p x').ends p') := by
  intro p'
  show Fine (Function.update s.ends p x' p')
  by_cases hp : p' = p
  · rw [hp, Function.update_self]
    exact hx
  · rw [Function.update_of_ne hp]
    exact h p'

/-- In a run without faults a connection is closed only with `ERROR_CODE_OK`. -/
theorem code_eq_ok (h : s.Inv) (hfine : ∀ p, Fine (s.ends p)) {p : Role} {code : Nat}
    (hclosed : (s.ends p).closed = some code) :
    code = errorCodeOk ∧ (s.ends p).phase = .returned (.ok ()) := by
  have hreturned : (s.ends p).phase = .returned (.ok ()) := by
    by_contra hne
    have hopen := (h p).opened (fun res hres => ?_) (hfine p).1
    · rw [hopen] at hclosed
      cases hclosed
    · cases res with
      | ok _ => exact hne hres
      | error e => exact (hfine p).2 e hres
  refine ⟨?_, hreturned⟩
  rw [(h p).code.mpr hreturned] at hclosed
  exact (Option.some.inj hclosed).symm

theorem fine_answer (h : s.Inv) (hfine : ∀ p, Fine (s.ends p)) {p : Role} {a : Answer}
    {x' : ConnEnd} (hpossible : s.possible p a = true) (ha : FaultFree s (.answer p a))
    (hx : (s.ends p).Terminates a x') : Fine x' := by
  -- a lost connection was closed by the other end, which has heard our goodbye
  have hlost : ∀ err, a = .lost err → (∀ res, (s.ends p).phase ≠ .returned res) →
      err = .applicationClosed errorCodeOk ∧ (s.ends p).goodbye = some 1 := by
    rintro err rfl hr
    cases err with
    | locallyClosed => simp [possible, (h p).opened hr (hfine p).1] at hpossible
    | applicationClosed code =>
        obtain ⟨rfl, hreturned⟩ := code_eq_ok h hfine (of_decide_eq_true hpossible)
        have hheard := (h p.other).heard (Or.inr hreturned)
        rw [Role.other_other] at hheard
        exact ⟨rfl, hheard⟩
    | other => exact absurd ha id
  cases hx with
  | opened _ => simp [Fine]
  | written _ => simp [Fine]
  | dropped hphase =>
      have hr : ∀ res, (s.ends p).phase ≠ .returned res := by
        rcases hphase with hphase | hphase <;> simp [hphase]
      have hheard := (hlost _ rfl hr).2
      rw [(h p).silent (Or.inr (Or.inr hphase))] at hheard
      cases hheard
  | accepted _ => simp [Fine]
  | goodbye _ => simp [Fine, close]
  | closed _ => simp [Fine, close]
  | unexpected hphase hbyte =>
      have hgoodbye : (s.ends p.other).goodbye = some _ := of_decide_eq_true hpossible
      rcases (h p.other).byte with hnone | hone
      · rw [hnone] at hgoodbye
        cases hgoodbye
      · rw [hone] at hgoodbye
        exact absurd (Option.some.inj hgoodbye).symm hbyte
  | lost hphase herr => exact absurd (hlost _ rfl (by simp [hphase])).1 herr
  | timeout _ => exact absurd ha id

theorem fine_step (h : s.Inv) (hfine : ∀ p, Fine (s.ends p)) {a : Action} (ha : FaultFree s a)
    (hstep : s.step a = some s') : ∀ p, Fine (s'.ends p) := by
  cases a with
  | fail p => exact absurd ha id
  | answer p a =>
      simp only [Closing.step] at hstep
      split at hstep
      · rename_i hpossible
        obtain ⟨x', hx', rfl⟩ := Option.map_eq_some_iff.mp hstep
        exact fine_setEnd hfine (fine_answer h hfine hpossible ha (terminates_of_eq hx'))
      · cases hstep
  | terminate p =>
      simp only [Closing.step] at hstep
      split at hstep
      · obtain rfl := Option.some.inj hstep
        exact fine_setEnd hfine (by simp [Fine])
      · cases hstep
  | write p ch bytes | finish p ch | read p ch len | endOfStream p ch | stop p ch =>
      simp only [Closing.step] at hstep
      split at hstep
      · obtain rfl := Option.some.inj hstep
        exact fine_setEnd hfine ((hfine p).of_phase rfl)
      · cases hstep

/-- How many answers `terminate_gracefully` still waits for at most. -/
def remaining (x : ConnEnd) : Nat :=
  match x.phase with
  | .openUni => 4
  | .writeU8 => 3
  | .waiting .acceptUni => 2
  | .waiting .readExact => 1
  | _ => 0

/-- How many answers both ends still wait for at most. -/
def total (s : Closing) : Nat := remaining (s.ends .alfie) + remaining (s.ends .betty)

theorem remaining_lt {x x' : ConnEnd} {a : Answer} (h : x.Terminates a x') :
    remaining x' < remaining x := by
  cases h with
  | opened hphase => simp [remaining, hphase]
  | written hphase => simp [remaining, hphase]
  | dropped hphase => rcases hphase with hphase | hphase <;> simp [remaining, hphase, close]
  | accepted hphase => simp [remaining, hphase]
  | goodbye hphase => simp [remaining, hphase, close]
  | @closed w hphase => cases w <;> simp [remaining, hphase, close]
  | unexpected hphase _ => simp [remaining, hphase, close]
  | @lost w _ hphase _ => cases w <;> simp [remaining, hphase, close]
  | @timeout w hphase => cases w <;> simp [remaining, hphase, close]

theorem total_setEnd_lt {p : Role} {x' : ConnEnd} (h : remaining x' < remaining (s.ends p)) :
    total (s.setEnd p x') < total s := by
  cases p with
  | alfie =>
      show remaining x' + remaining (s.ends .betty) < _
      unfold total
      omega
  | betty =>
      show remaining (s.ends .alfie) + remaining x' < _
      unfold total
      omega

/-- Both ends are terminating, and no step has failed. -/
structure Ending (s : Closing) : Prop where
  inv : s.Inv
  fine : ∀ p, Fine (s.ends p)
  terminating : ∀ p, (s.ends p).phase ≠ .running

theorem Ending.step (h : s.Ending) {a : Action} (ha : FaultFree s a)
    (hstep : s.step a = some s') : s'.Ending ∧ total s' < total s := by
  have hinv := h.inv.step hstep
  have hfine := fine_step h.inv h.fine ha hstep
  cases a with
  | answer p a =>
      simp only [Closing.step] at hstep
      split at hstep
      · obtain ⟨x', hx', rfl⟩ := Option.map_eq_some_iff.mp hstep
        have hx := terminates_of_eq hx'
        refine ⟨⟨hinv, hfine, fun p' => ?_⟩, total_setEnd_lt (remaining_lt hx)⟩
        show (Function.update s.ends p x' p').phase ≠ .running
        by_cases hp : p' = p
        · rw [hp, Function.update_self]
          cases hx <;> simp [close]
        · rw [Function.update_of_ne hp]
          exact h.terminating p'
      · cases hstep
  | fail p => exact absurd ha id
  | write p ch bytes | finish p ch | read p ch len | endOfStream p ch | stop p ch | terminate p =>
      simp [Closing.step, h.terminating p] at hstep

/-- An end that waits gets an answer, or the other end can take a step. -/
theorem Ending.progress (h : s.Ending) {p : Role} (hp : (s.ends p).phase ≠ .returned (.ok ())) :
    ∃ a s', FaultFree s a ∧ s.step a = some s' := by
  have hanswer : ∀ p a, FaultFree s (.answer p a) → s.possible p a = true →
      ((s.ends p).terminateGracefully a).isSome = true →
      ∃ a s', FaultFree s a ∧ s.step a = some s' := by
    intro p a ha hpossible hsome
    obtain ⟨x', hx⟩ := Option.isSome_iff_exists.mp hsome
    exact ⟨.answer p a, s.setEnd p x', ha, by simp [Closing.step, hpossible, hx]⟩
  cases hphase : (s.ends p).phase with
  | running => exact absurd hphase (h.terminating p)
  | failed => exact absurd hphase (h.fine p).1
  | returned res =>
      cases res with
      | ok _ => exact absurd hphase hp
      | error e => exact absurd hphase ((h.fine p).2 e)
  | openUni => exact hanswer p .ok trivial rfl (by simp [terminateGracefully, hphase])
  | writeU8 => exact hanswer p .ok trivial rfl (by simp [terminateGracefully, hphase])
  | waiting w =>
      cases w with
      | readExact =>
          have hheard := (h.inv p).heard (Or.inl hphase)
          exact hanswer p (.byte 1) trivial (decide_eq_true hheard)
            (by simp [terminateGracefully, hphase, waitForGoodbyeOrGracefulClose])
      | acceptUni =>
          rcases (h.inv p.other).byte with hnone | hone
          · -- the other end has not said goodbye: it does so next
            cases hother : (s.ends p.other).phase with
            | running => exact absurd hother (h.terminating p.other)
            | failed => exact absurd hother (h.fine p.other).1
            | openUni =>
                exact hanswer p.other .ok trivial rfl (by simp [terminateGracefully, hother])
            | writeU8 =>
                exact hanswer p.other .ok trivial rfl (by simp [terminateGracefully, hother])
            | waiting w =>
                rw [(h.inv p.other).said (Or.inl ⟨w, hother⟩)] at hnone
                cases hnone
            | returned res =>
                cases res with
                | ok _ =>
                    rw [(h.inv p.other).said (Or.inr hother)] at hnone
                    cases hnone
                | error e => exact absurd hother ((h.fine p.other).2 e)
          · have hstream : s.possible p .stream = true := by simp [possible, hone]
            exact hanswer p .stream trivial hstream
              (by simp [terminateGracefully, hphase, waitForGoodbyeOrGracefulClose])

/-- **Without faults both ends close gracefully.** In a run without faults
`terminate_gracefully` never fails; once the loops have ended at both ends, every further
run has at most eight steps, and when no step is left it has returned without an error at
both ends. -/
theorem both_return_ok (hs : Reachable step FaultFree {} s) :
    (∀ p, Fine (s.ends p)) ∧
    ((∀ p, (s.ends p).phase ≠ .running) → ∀ actions s', run step s actions = some s' →
      AllowedAlong step FaultFree s actions → actions.length ≤ 8 ∧
        ((∀ a, FaultFree s' a → s'.step a = none) →
          ∀ p, (s'.ends p).phase = .returned (.ok ()))) := by
  have h : s.Inv ∧ ∀ p, Fine (s.ends p) := by
    refine hs.invariant (P := fun s => s.Inv ∧ ∀ p, Fine (s.ends p))
      ⟨fun _ => ConnEnd.inv_start, fun _ => by simp [Fine]⟩ ?_
    rintro s a s' ⟨hinv, hfine⟩ ha hstep
    exact ⟨hinv.step hstep, fine_step hinv hfine ha hstep⟩
  refine ⟨h.2, fun hended actions s' hrun hall => ?_⟩
  obtain ⟨hending, hlen⟩ :=
    length_add_le (P := Ending) (fun _ _ _ hE ha hstep => hE.step ha hstep) ⟨h.1, h.2, hended⟩
      hrun hall
  have htotal : total s ≤ 8 := by
    have hle : ∀ x : ConnEnd, remaining x ≤ 4 := by
      intro x
      unfold remaining
      split <;> decide
    have hA := hle (s.ends .alfie)
    have hB := hle (s.ends .betty)
    unfold total
    omega
  refine ⟨by omega, fun hstuck p => ?_⟩
  by_contra hp
  obtain ⟨a, t, ha, ht⟩ := hending.progress hp
  rw [hstuck a ha] at ht
  cases ht

set_option maxRecDepth 8000 in
theorem both_return_ok_run :
    ∃ s s', run step {} Sample.loops = some s ∧ run step s Sample.answers = some s' ∧
      ∀ p, (s'.ends p).phase = .returned (.ok ()) := by
  obtain ⟨s, s', hs, hs'⟩ : ∃ s s', run step {} Sample.loops = some s ∧
      run step s Sample.answers = some s' := ⟨_, _, rfl, rfl⟩
  have hended : ∀ p, (s.ends p).phase ≠ .running := by
    obtain rfl := Option.some.inj hs
    rintro (_ | _) <;> decide
  have hall : AllowedAlong step FaultFree s Sample.answers := by
    obtain rfl := Option.some.inj hs
    decide
  have hphase : ∀ p, (s'.ends p).phase = .returned (.ok ()) := by
    obtain rfl := Option.some.inj hs
    obtain rfl := Option.some.inj hs'
    rintro (_ | _) <;> rfl
  have hloops : AllowedAlong step FaultFree {} Sample.loops := by decide
  have hreach := Reachable.of_run hs hloops
  refine ⟨s, s', hs, hs', ((both_return_ok hreach).2 hended _ s' hs' hall).2 ?_⟩
  intro a _
  cases a <;> simp [step, terminateGracefully, hphase]

end Closing

end IrohWillow
