import IrohWillow.Session.Completion
import IrohWillow.Session.Loops

/-!
# The way of an intent to the dispatcher

A session gets its intents when it starts, and later through the channel of its updates. The
update loop of `run_session` moves them to the inbox of the dispatcher, which begins with the
initial ones; when the session ends, `drain_all` and `run_session` collect what is left on the
way.

`intake_accounted` follows all intents that a session was given: they reach the dispatcher in
the order in which they were given, and what is left is given back or aborted. Before it has
reached the dispatcher, an intent gets lost only if the session fails while the update loop
waits for room in the inbox: then its client hears `Nothing` instead of the error.
-/

namespace IrohWillow.Intents

open Transition

/-- `SessionUpdate`. -/
inductive SessionUpdate where
  | submitIntent (intent : Intent)
  | abort (error : AbortError)

/-- The intents among some updates. -/
def SessionUpdate.intents : List SessionUpdate → List Intent
  | [] => []
  | .submitIntent intent :: rest => intent :: intents rest
  | .abort _ :: rest => intents rest

/-- The intents in an inbox. -/
def Input.intents : List Input → List Intent
  | [] => []
  | .submitIntent intent :: rest => intent :: intents rest
  | .emitEvent _ :: rest => intents rest

theorem SessionUpdate.intents_append (updates updates' : List SessionUpdate) :
    intents (updates ++ updates') = intents updates ++ intents updates' := by
  induction updates with
  | nil => rfl
  | cons update rest ih => cases update <;> simp [intents, ih]

theorem Input.intents_append (inputs inputs' : List Input) :
    intents (inputs ++ inputs') = intents inputs ++ intents inputs' := by
  induction inputs with
  | nil => rfl
  | cons input rest ih => cases input <;> simp [intents, ih]

/-- Where the intents of a session are, and which ones it was given. -/
structure Intake where
  /-- The channel of the updates. -/
  updates : List SessionUpdate := []
  updatesClosed : Bool := false
  /-- What the update loop waits to send. -/
  hand : Option Intent := none
  updateLoopEnded : Bool := false
  abortErr : Option AbortError := none
  /-- The inbox of the dispatcher. -/
  inbox : List Input := []
  /-- `pending_intents` of the dispatcher. -/
  pending : List Intent
  /-- The intents for which `submit_intent` was called. -/
  dispatched : List Intent := []
  given : List Intent

namespace Intake

/-- `SESSION_UPDATE_CHANNEL_CAP`. -/
def sessionUpdateChannelCap : Nat := 64

/-- A session before its first step. -/
def start (initialIntents : List Intent) : Intake :=
  { pending := initialIntents, given := initialIntents }

/-- What may happen. -/
inductive Action where
  /-- An update is sent to the session. -/
  | send (update : SessionUpdate)
  /-- The update loop takes an update. -/
  | takeUpdate
  /-- The update loop sends the intent that it has taken. -/
  | forward
  /-- Another loop sends an event to the dispatcher. -/
  | emitEvent (event : EventKind)
  /-- The dispatcher takes an initial intent, or then from its inbox. -/
  | dispatch
  /-- The update loop ends, because its receiver is cancelled. The receiver had no update when
  it was polled, but one may be sent before it is closed. -/
  | cancelUpdates

/-- One step. -/
def step (s : Intake) : Action → Option Intake
  | .send update =>
      if s.updatesClosed = false ∧ s.updates.length < sessionUpdateChannelCap then
        some { s with
          updates := s.updates ++ [update]
          given := s.given ++ SessionUpdate.intents [update] }
      else none
  | .takeUpdate =>
      if s.updateLoopEnded = false ∧ s.hand = none then
        match s.updates with
        | [] => none
        | .submitIntent intent :: rest => some { s with updates := rest, hand := some intent }
        | .abort error :: rest =>
            some { s with updates := rest, abortErr := some error, updateLoopEnded := true }
      else none
  | .forward =>
      match s.hand with
      | none => none
      | some intent =>
          if s.inbox.length < Loop.capacity .intents then
            some { s with hand := none, inbox := s.inbox ++ [.submitIntent intent] }
          else none
  | .emitEvent event =>
      if s.inbox.length < Loop.capacity .intents then
        some { s with inbox := s.inbox ++ [.emitEvent event] }
      else none
  | .dispatch =>
      match s.pending, s.inbox with
      | intent :: rest, _ => some { s with pending := rest, dispatched := s.dispatched ++ [intent] }
      | [], input :: rest =>
          some { s with inbox := rest, dispatched := s.dispatched ++ Input.intents [input] }
      | [], [] => none
  | .cancelUpdates =>
      if s.updateLoopEnded = false ∧ s.hand = none then
        some { s with updatesClosed := true, updateLoopEnded := true }
      else none

/-- `RemainingIntents::queued`, once `run_session` has drained the updates too. -/
def queued (s : Intake) : List Intent :=
  Input.intents s.inbox ++ s.pending ++ SessionUpdate.intents s.updates

/-- All loops have returned `Ok`: the update loop has ended, and nothing was left for the
dispatcher when its inbox was closed. -/
structure Finished (s : Intake) : Prop where
  updateLoopEnded : s.updateLoopEnded = true
  hand : s.hand = none
  pending : s.pending = []
  inbox : s.inbox = []

/-- How the session may end here. A loop may fail at any time; without an error all loops have
finished, and no `Abort` was sent. -/
def Ends (s : Intake) : Ending → Prop
  | .failed _ => True
  | _ => s.Finished ∧ s.abortErr = none ∧ ∀ error, .abort error ∉ s.updates

/-- The queued intents that the `Complete` event has. -/
def returned (s : Intake) : Ending → List Intent
  | .failed _ => []
  | _ => s.queued

/-- The queued intents that `abort_all` aborts. -/
def aborted (s : Intake) : Ending → List Intent
  | .failed _ => s.queued
  | _ => []

/-! ## In order -/

/-- The intents on their way, the first to arrive first. -/
def onTheWay (s : Intake) : List Intent :=
  s.pending ++ Input.intents s.inbox ++ s.hand.toList ++ SessionUpdate.intents s.updates

/-- What was given has arrived or is on its way, in the order in which it was given. -/
def Accounted (s : Intake) : Prop := s.given = s.dispatched ++ s.onTheWay

variable {s s' : Intake}

theorem Accounted.start (initialIntents : List Intent) : (start initialIntents).Accounted := by
  simp [Accounted, onTheWay, Intake.start, Input.intents, SessionUpdate.intents]

/-- **One step** moves at most one intent by one place. -/
theorem Accounted.step (h : s.Accounted) {a : Action} (hstep : s.step a = some s') :
    s'.Accounted := by
  unfold Accounted onTheWay at h ⊢
  cases a with
  | send update =>
      simp only [Intake.step] at hstep
      split at hstep
      · obtain rfl := Option.some.inj hstep
        simp [h, SessionUpdate.intents_append]
      · cases hstep
  | takeUpdate =>
      simp only [Intake.step] at hstep
      split at hstep
      · rename_i hguard
        rw [hguard.2] at h
        split at hstep
        · cases hstep
        · rename_i intent rest hupdates
          obtain rfl := Option.some.inj hstep
          rw [hupdates] at h
          simpa [SessionUpdate.intents] using h
        · rename_i error rest hupdates
          obtain rfl := Option.some.inj hstep
          rw [hupdates] at h
          simpa [SessionUpdate.intents, hguard.2] using h
      · cases hstep
  | forward =>
      simp only [Intake.step] at hstep
      split at hstep
      · cases hstep
      · rename_i intent hhand
        split at hstep
        · obtain rfl := Option.some.inj hstep
          rw [hhand] at h
          simpa [Input.intents_append, Input.intents] using h
        · cases hstep
  | emitEvent event =>
      simp only [Intake.step] at hstep
      split at hstep
      · obtain rfl := Option.some.inj hstep
        simpa [Input.intents_append, Input.intents] using h
      · cases hstep
  | dispatch =>
      simp only [Intake.step] at hstep
      split at hstep
      · rename_i intent rest _ hpending
        obtain rfl := Option.some.inj hstep
        rw [hpending] at h
        simpa using h
      · rename_i input rest hpending hinbox
        obtain rfl := Option.some.inj hstep
        rw [hpending, hinbox] at h
        cases input <;> simpa [Input.intents, hpending] using h
      · cases hstep
  | cancelUpdates =>
      simp only [Intake.step] at hstep
      split at hstep
      · obtain rfl := Option.some.inj hstep
        exact h
      · cases hstep

/-- Every session. -/
theorem accounted_of_reachable {initialIntents : List Intent}
    (hs : Reachable step (fun _ _ => True) (start initialIntents) s) : s.Accounted :=
  hs.invariant (Accounted.start initialIntents) fun _ _ _ h _ hstep => h.step hstep

/-! ## At the end -/

theorem returned_append_aborted (s : Intake) (ending : Ending) :
    s.returned ending ++ s.aborted ending = s.queued := by
  cases ending <;> simp [returned, aborted]

/-- What is collected at the end is what was on the way, but for what the update loop held. -/
theorem onTheWay_perm (s : Intake) : s.onTheWay.Perm (s.queued ++ s.hand.toList) := by
  unfold onTheWay queued
  rw [List.append_assoc _ s.hand.toList, List.append_assoc _ _ s.hand.toList]
  exact List.perm_append_comm.append List.perm_append_comm

theorem Finished.onTheWay (h : s.Finished) : s.onTheWay = s.queued := by
  simp [Intake.onTheWay, queued, h.hand, h.pending, h.inbox]

theorem Ends.finished {ending : Ending} (h : s.Ends ending)
    (hok : ∀ error, ending ≠ .failed error) : s.Finished := by
  cases ending with
  | failed error => exact absurd rfl (hok error)
  | weCancelled => exact h.1
  | closedByPeer => exact h.1

theorem aborted_of_ok {ending : Ending} (hok : ∀ error, ending ≠ .failed error) :
    s.aborted ending = [] := by
  cases ending with
  | failed error => exact absurd rfl (hok error)
  | weCancelled => rfl
  | closedByPeer => rfl

/-- **Every intent is accounted for.** -/
theorem intake_accounted {initialIntents : List Intent} (ending : Ending)
    (hs : Reachable step (fun _ _ => True) (Intake.start initialIntents) s)
    (hends : s.Ends ending) :
    s.dispatched <+: s.given ∧
      s.given.Perm
        (s.dispatched ++ (s.returned ending ++ s.aborted ending) ++ s.hand.toList) ∧
      ((∀ error, ending ≠ .failed error) → s.given = s.dispatched ++ s.returned ending) := by
  have hgiven : s.given = s.dispatched ++ s.onTheWay := accounted_of_reachable hs
  refine ⟨hgiven ▸ List.prefix_append _ _, ?_, fun hok => ?_⟩
  · rw [hgiven, returned_append_aborted, List.append_assoc]
    exact s.onTheWay_perm.append_left _
  · have hqueued : s.returned ending = s.queued := by
      have := s.returned_append_aborted ending
      rwa [aborted_of_ok hok, List.append_nil] at this
    rw [hgiven, hqueued, (hends.finished hok).onTheWay]

section Samples

/-- An intent for everything. -/
def Sample.intent : Intent := ⟨.all, .reconcileOnce, true⟩

/-- The inbox is full of events when the update loop takes the intent. -/
def Sample.held : List Action :=
  [.send (.submitIntent Sample.intent), .emitEvent .reconciledAll, .emitEvent .reconciledAll,
    .takeUpdate]

/-- Then a loop fails: the intent is neither given back nor aborted, and its client hears
`Nothing`. -/
theorem intake_accounted_held : ∃ s,
    Transition.run step (Intake.start []) Sample.held = some s ∧
      s.dispatched ++ (s.returned (.failed (.run .auth)) ++ s.aborted (.failed (.run .auth))) =
        [] ∧
      s.given.Perm [Sample.intent] ∧ IntentHandle.complete [] none = .ok .nothing := by
  have hs := Reachable.of_run_all
    (show Transition.run step (Intake.start []) Sample.held = some _ from rfl)
  refine ⟨_, rfl, rfl, ?_, rfl⟩
  exact (intake_accounted (.failed (.run .auth)) hs trivial).2.1

end Samples

end Intake

end IrohWillow.Intents
