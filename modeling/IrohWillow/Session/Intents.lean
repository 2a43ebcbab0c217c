import IrohWillow.Lib.Fallible
import IrohWillow.Lib.Transition
import IrohWillow.Session.AoiFinder
import IrohWillow.Store.InsertEntry

/-!
# The intent dispatcher

`IntentDispatcher` of `session/intents.rs`: the intents of a session with the
areas each of them still waits for, the areas that were reconciled so far, and
what happens to both when an intent is submitted, updated or dropped and when
the session reports an event.

A client may drop the event receiver of its intent at any moment, also while
the dispatcher sends to it. So the receiver of an intent is the number of
further events it takes before it is gone. A session is a run of `step`; its
`log` has what was submitted, reported, sent and ended, in this order.
-/

namespace IrohWillow

/-- `SessionMode`. -/
inductive SessionMode where
  | reconcileOnce
  | continuous
  deriving DecidableEq, Repr

/-- `SessionMode::is_live`. -/
def SessionMode.isLive : SessionMode → Bool
  | .continuous => true
  | .reconcileOnce => false

/-- The functions of `willow_data_model` on areas that are not spelled out
here. -/
class AreaIntersection where
  /-- `Area::intersection`. -/
  intersection : Area → Area → Option Area

namespace Intents

/-! ## Interests -/

/-- `AreaOfInterestSelector`. -/
inductive AreaOfInterestSelector where
  | widest
  | exact (aois : List AreaOfInterest)
  deriving DecidableEq

/-- `Interests`. -/
inductive Interests where
  | all
  | select (interests : List (CapSelector × AreaOfInterestSelector))
  deriving DecidableEq

/-- `InterestMap`. -/
abbrev InterestMap := List (ReadAuthorisation × List AreaOfInterest)

/-- Add areas of interest to those of an authorisation. -/
def InterestMap.add (map : InterestMap) (auth : ReadAuthorisation) (aois : List AreaOfInterest) :
    InterestMap :=
  match map with
  | [] => [(auth, aois)]
  | (auth', aois') :: rest =>
      if auth' = auth then (auth', aois' ∪ aois) :: rest else (auth', aois') :: add rest auth aois

/-- What `Auth` finds in the caps storage at some moment; `none` is
`AuthError`. -/
structure Auth where
  listReadCaps : Option (List ReadAuthorisation)
  getReadCap : CapSelector → Option (Option ReadAuthorisation)

namespace Auth

/-- The area of interest that asks for all a capability grants. -/
def widest (auth : ReadAuthorisation) : AreaOfInterest := ⟨auth.readCap.grantedArea, 0, 0⟩

/-- The loop of `resolve_interests` over the selected interests. -/
def resolveSelected (a : Auth) :
    List (CapSelector × AreaOfInterestSelector) → InterestMap → Option InterestMap
  | [], out => some out
  | (capSelector, aoiSelector) :: rest, out =>
      match a.getReadCap capSelector with
      | none => none
      | some none => resolveSelected a rest out
      | some (some cap) =>
          match aoiSelector with
          | .widest => resolveSelected a rest (out.add cap [widest cap])
          | .exact aois => resolveSelected a rest (out.add cap aois)

/-- `Auth::resolve_interests`. -/
def resolveInterests (a : Auth) : Interests → Option InterestMap
  | .all => a.listReadCaps.map fun auths =>
      auths.foldl (fun out auth => out.add auth [widest auth]) []
  | .select interests => a.resolveSelected interests []

end Auth

/-- `NamespaceInterests`. -/
abbrev NamespaceInterests := AList fun _ : NamespaceId => List AreaOfInterest

namespace NamespaceInterests

/-- `entry(namespace).or_default().extend(aois)`. -/
def extend (m : NamespaceInterests) (ns : NamespaceId) (aois : List AreaOfInterest) :
    NamespaceInterests :=
  m.insert ns ((m.lookup ns).getD [] ∪ aois)

/-- `is_empty`. -/
def isEmpty (m : NamespaceInterests) : Bool := m.entries.isEmpty

/-- All areas with their namespaces. -/
def toList (m : NamespaceInterests) : List (NamespaceId × AreaOfInterest) :=
  m.entries.flatMap fun e => e.2.map fun x => (e.1, x)

/-- The area is among those of the namespace. -/
def Has (m : NamespaceInterests) (ns : NamespaceId) (x : AreaOfInterest) : Prop :=
  ∃ aois, m.lookup ns = some aois ∧ x ∈ aois

variable {m : NamespaceInterests} {ns ns' : NamespaceId} {x : AreaOfInterest}

@[simp] theorem not_has_empty : ¬ Has ∅ ns x := by
  rintro ⟨aois, h, -⟩
  cases h

theorem not_has_of_isEmpty (h : m.isEmpty = true) : ¬ m.Has ns x := by
  rintro ⟨aois, hlook, -⟩
  have hmem := AList.mem_lookup_iff.mp hlook
  rw [List.isEmpty_iff.mp h] at hmem
  cases hmem

theorem has_extend {aois : List AreaOfInterest} :
    (m.extend ns aois).Has ns' x ↔ m.Has ns' x ∨ ns' = ns ∧ x ∈ aois := by
  unfold Has extend
  by_cases hns : ns' = ns
  · subst hns
    rw [AList.lookup_insert]
    cases m.lookup ns' <;> simp
  · rw [AList.lookup_insert_ne hns]
    simp [hns]

theorem mem_toList : (ns, x) ∈ m.toList ↔ m.Has ns x := by
  simp only [toList, List.mem_flatMap, List.mem_map, Prod.mk.injEq, Has]
  constructor
  · rintro ⟨⟨ns', aois⟩, hmem, y, hy, rfl, rfl⟩
    exact ⟨aois, AList.mem_lookup_iff.mpr hmem, hy⟩
  · rintro ⟨aois, hlook, hx⟩
    exact ⟨⟨ns, aois⟩, AList.mem_lookup_iff.mp hlook, x, hx, rfl, rfl⟩

/-- `merge_interests`. -/
def merge (m : NamespaceInterests) : InterestMap → NamespaceInterests
  | [] => m
  | (auth, aois) :: rest => merge (m.extend auth.namespaceId aois) rest

theorem has_merge {interests : InterestMap} :
    (m.merge interests).Has ns x ↔
      m.Has ns x ∨ ∃ e ∈ interests, e.1.namespaceId = ns ∧ x ∈ e.2 := by
  induction interests generalizing m with
  | nil => simp [merge]
  | cons e rest ih =>
      obtain ⟨auth, aois⟩ := e
      rw [merge, ih, has_extend]
      simp only [List.exists_mem_cons_iff, or_assoc, eq_comm (a := ns)]

end NamespaceInterests

/-- `flatten_interests`. -/
def flattenInterests (interests : InterestMap) : NamespaceInterests :=
  NamespaceInterests.merge ∅ interests

/-! ## One intent -/

/-- `EventKind`. -/
inductive EventKind where
  | capabilityIntersection (ns : NamespaceId) (area : Area)
  | interestIntersection (ns : NamespaceId) (area : AreaOfInterest)
  | reconciled (ns : NamespaceId) (area : AreaOfInterest)
  | reconciledAll
  | abort (error : Error)
  deriving DecidableEq

/-- `IntentInfo`. Its `event_tx` is the way to the receiver of the intent. -/
structure IntentInfo where
  interests : NamespaceInterests
  mode : SessionMode
  hasEventTx : Bool

/-- `ChannelReceiverDropped`. -/
inductive ChannelReceiverDropped where
  | mk

/-- An intent while events are sent to it, and what its receiver has taken. -/
structure Delivery where
  info : IntentInfo
  sent : List EventKind := []

open Fallible

/-- Sending to the receiver of an intent, which takes `left` more events. -/
abbrev Sending (α : Type) := Comp ChannelReceiverDropped Delivery α

namespace IntentInfo

/-- `IntentInfo::is_complete`. -/
def isComplete (info : IntentInfo) : Bool := info.interests.isEmpty && !info.mode.isLive

/-- `IntentInfo::events_closed`, where `left` is what the receiver still
takes. -/
def eventsClosed (info : IntentInfo) (left : Option Nat) : Bool :=
  info.hasEventTx && decide (left = some 0)

/-- `IntentInfo::merge_interests`. -/
def mergeInterests (info : IntentInfo) (interests : InterestMap) : IntentInfo :=
  { info with interests := info.interests.merge interests }

variable [AreaIntersection]

/-- Some area of the list overlaps the given one. -/
def overlaps (aois : List AreaOfInterest) (area : Area) : Bool :=
  aois.any fun x => (AreaIntersection.intersection x.area area).isSome

/-- `IntentInfo::matches_area`. -/
def matchesArea (info : IntentInfo) (ns : NamespaceId) (area : Area) : Bool :=
  match info.interests.lookup ns with
  | none => false
  | some aois => overlaps aois area

/-- `IntentInfo::complete_area_if_matches`. -/
def completeAreaIfMatches (info : IntentInfo) (ns : NamespaceId) (area : Area) :
    Bool × IntentInfo :=
  match info.interests.lookup ns with
  | none => (false, info)
  | some aois =>
      if overlaps aois area then
        let aois' := aois.filter fun x => !decide (area.IncludesArea x.area)
        if aois'.isEmpty then (true, { info with interests := info.interests.erase ns })
        else (true, { info with interests := info.interests.insert ns aois' })
      else (false, info)

end IntentInfo

/-- `IntentInfo::send`. -/
def send (event : EventKind) : Sending Unit := fun left d =>
  if d.info.hasEventTx then
    operation .mk (fun d => ((), { d with sent := d.sent ++ [event] })) left d
  else (.ok (), left, d)

/-- Whether no interest is left. -/
def noInterests : Sending Bool := access fun d => (d.info.interests.isEmpty, d)

variable [AreaIntersection]

/-- `complete_area_if_matches` in the course of sending. -/
def completeArea (ns : NamespaceId) (area : Area) : Sending Bool := access fun d =>
  ((d.info.completeAreaIfMatches ns area).1,
    { d with info := (d.info.completeAreaIfMatches ns area).2 })

/-- `IntentInfo::on_reconciled`. -/
def onReconciled (ns : NamespaceId) (area : AreaOfInterest) : Sending Unit := do
  let isMatch ← completeArea ns area.area
  when isMatch do
    send (.reconciled ns area)
    let isEmpty ← noInterests
    when isEmpty (send .reconciledAll)

/-- Whether an event concerns the intent. A reconciled area is taken off its
interests. -/
def matchesEvent : EventKind → Sending Bool
  | .capabilityIntersection ns _ => access fun d => ((d.info.interests.lookup ns).isSome, d)
  | .interestIntersection ns area => access fun d => (d.info.matchesArea ns area.area, d)
  | .reconciled ns area => completeArea ns area.area
  | .abort _ => pure true
  | .reconciledAll => pure false

/-- The event is `Reconciled`. -/
def EventKind.isReconciled : EventKind → Bool
  | .reconciled _ _ => true
  | _ => false

/-- `IntentInfo::handle_event`; returns whether the intent is complete. -/
def handleEvent (event : EventKind) : Sending Bool := do
  let isMatch ← matchesEvent event
  when isMatch do
    send event
    let isEmpty ← noInterests
    when (event.isReconciled && isEmpty) (send .reconciledAll)
  access fun d => (d.info.isComplete, d)

/-- The loop of `submit_intent` over the areas that are complete already. -/
def catchUp : List (NamespaceId × AreaOfInterest) → Sending Unit
  | [] => pure ()
  | (ns, area) :: rest => do
      onReconciled ns area
      catchUp rest

/-! ## The dispatcher -/

/-- `IntentId`. -/
abbrev IntentId := Nat

/-- `Intent`: a detached intent has no channels. -/
structure Intent where
  interests : Interests
  mode : SessionMode
  hasChannels : Bool

/-- `IntentUpdate`. -/
inductive IntentUpdate where
  | addInterests (interests : Interests)
  | close
  deriving DecidableEq

/-- `Output`. -/
inductive Output where
  | submitInterests (interests : InterestMap)
  | allIntentsDropped
  deriving DecidableEq

/-- Why `run` returns an error. -/
inductive RunError where
  | auth
  | channelReceiverDropped
  deriving DecidableEq, Repr

/-- What happens in a session, for the record. -/
inductive Effect where
  /-- The intent asks for these interests. -/
  | submitted (id : IntentId) (interests : InterestMap)
  /-- The session reports that the area is reconciled. -/
  | processed (ns : NamespaceId) (area : AreaOfInterest)
  | sent (id : IntentId) (event : EventKind)
  /-- The intent is removed because it is complete. -/
  | completed (id : IntentId)
  /-- The intent is removed because it was closed or dropped. -/
  | cancelled (id : IntentId)
  | output (output : Output)
  deriving DecidableEq

/-- `IntentDispatcher`, with the receivers of its intents, the result of `run`
once it has returned, and the log. -/
structure IntentDispatcher where
  intents : IntentId → Option IntentInfo := fun _ => none
  /-- The keys of `intent_update_rx`. -/
  intentUpdateRx : IntentId → Bool := fun _ => false
  nextIntentId : Nat := 0
  completeAreas : NamespaceInterests := ∅
  /-- How many more events the receiver of an intent takes; `none` if it is
  never dropped. -/
  receivers : IntentId → Option Nat := fun _ => none
  result : Option (Except RunError Unit) := none
  log : List Effect := []

namespace IntentDispatcher

/-- Add to the log. -/
def record (s : IntentDispatcher) (effects : List Effect) : IntentDispatcher :=
  { s with log := s.log ++ effects }

/-- `intents.is_empty()`. -/
def noIntents (s : IntentDispatcher) : Bool :=
  (List.range s.nextIntentId).all fun id => (s.intents id).isNone

/-- `AllIntentsDropped`, when no intent is left. -/
def yieldIfDropped (s : IntentDispatcher) : IntentDispatcher :=
  if s.noIntents then s.record [.output .allIntentsDropped] else s

/-- `cancel_intent_inner`. -/
def cancelIntentInner (s : IntentDispatcher) (id : IntentId) : IntentDispatcher :=
  { s with
    intents := Function.update s.intents id none
    intentUpdateRx := Function.update s.intentUpdateRx id false
    log := s.log ++ [.cancelled id] }

/-- `cancel_intent`. -/
def cancelIntent (s : IntentDispatcher) (id : IntentId) : IntentDispatcher :=
  (s.cancelIntentInner id).yieldIfDropped

section Fields

omit [AreaIntersection]

variable (s : IntentDispatcher) {id id' : IntentId}

@[simp] theorem yieldIfDropped_intents : s.yieldIfDropped.intents = s.intents := by
  unfold yieldIfDropped
  split <;> rfl

@[simp] theorem yieldIfDropped_intentUpdateRx : s.yieldIfDropped.intentUpdateRx = s.intentUpdateRx := by
  unfold yieldIfDropped
  split <;> rfl

@[simp] theorem yieldIfDropped_nextIntentId : s.yieldIfDropped.nextIntentId = s.nextIntentId := by
  unfold yieldIfDropped
  split <;> rfl

@[simp] theorem yieldIfDropped_completeAreas : s.yieldIfDropped.completeAreas = s.completeAreas := by
  unfold yieldIfDropped
  split <;> rfl

@[simp] theorem yieldIfDropped_receivers : s.yieldIfDropped.receivers = s.receivers := by
  unfold yieldIfDropped
  split <;> rfl

@[simp] theorem yieldIfDropped_result : s.yieldIfDropped.result = s.result := by
  unfold yieldIfDropped
  split <;> rfl

theorem log_isPrefix_yieldIfDropped : s.log <+: s.yieldIfDropped.log := by
  unfold yieldIfDropped
  split
  · exact List.prefix_append _ _
  · exact List.prefix_refl _

@[simp] theorem cancelIntentInner_intents_self : (s.cancelIntentInner id).intents id = none :=
  Function.update_self _ _ _

theorem cancelIntentInner_intents_ne (h : id' ≠ id) :
    (s.cancelIntentInner id).intents id' = s.intents id' := Function.update_of_ne h _ _

theorem cancelIntentInner_intentUpdateRx_ne (h : id' ≠ id) :
    (s.cancelIntentInner id).intentUpdateRx id' = s.intentUpdateRx id' :=
  Function.update_of_ne h _ _

end Fields

/-- What handling an event made of an intent: whether it ends (`some` effect),
what its receiver still takes, the intent, and what was sent. -/
structure Handled where
  ended : Option Effect
  left : Option Nat
  delivery : Delivery

/-- `handle_event` of one intent, and what `emit_event_inner` does with the
result. -/
def handle (s : IntentDispatcher) (event : EventKind) (id : IntentId) (info : IntentInfo) :
    Handled :=
  match handleEvent event (s.receivers id) { info := info } with
  | (.ok isComplete, left, d) =>
      { ended := if isComplete then some (.completed id) else none, left := left, delivery := d }
  | (.error _, left, d) =>
      { ended := if s.intentUpdateRx id then none else some (.cancelled id)
        left := left, delivery := d }

/-- The effects of handling an event. -/
def Handled.effects (h : Handled) (id : IntentId) : List Effect :=
  h.delivery.sent.map (.sent id) ++ h.ended.toList

/-- A reconciled area is added to the complete ones. -/
def addComplete (m : NamespaceInterests) : EventKind → NamespaceInterests
  | .reconciled ns area => m.extend ns [area]
  | _ => m

/-- The report of a reconciled area. -/
def reported : EventKind → List Effect
  | .reconciled ns area => [.processed ns area]
  | _ => []

/-- `emit_event_inner`. -/
def emitEventInner (s : IntentDispatcher) (event : EventKind) : IntentDispatcher :=
  let handled := fun id => (s.intents id).map (s.handle event id)
  { s with
    completeAreas := addComplete s.completeAreas event
    intents := fun id => (handled id).bind fun h =>
      if h.ended.isSome then none else some h.delivery.info
    intentUpdateRx := fun id => s.intentUpdateRx id &&
      (handled id).all fun h => h.ended.isNone
    receivers := fun id => ((handled id).map Handled.left).getD (s.receivers id)
    log := s.log ++ reported event ++ (List.range s.nextIntentId).flatMap fun id =>
      ((handled id).map fun h => h.effects id).getD [] }

/-- `emit_event`, and the part of `drain_all` that handles the events that are
left when `run` has returned. -/
def emitEvent (s : IntentDispatcher) (event : EventKind) : IntentDispatcher :=
  match s.result with
  | none => (s.emitEventInner event).yieldIfDropped
  | some _ => s.emitEventInner event

/-- `submit_intent`. The complete areas are visited in the given order. -/
def submitIntent (s : IntentDispatcher) (auth : Auth) (intent : Intent)
    (order : List (NamespaceId × AreaOfInterest)) : IntentDispatcher :=
  match auth.resolveInterests intent.interests with
  | none => { s with result := some (.error .auth) }
  | some interests =>
      let id := s.nextIntentId
      let info : IntentInfo :=
        { interests := flattenInterests interests
          mode := intent.mode
          hasEventTx := intent.hasChannels }
      let s : IntentDispatcher :=
        { s with nextIntentId := id + 1, log := s.log ++ [.submitted id interests] }
      match catchUp order (s.receivers id) { info := info } with
      | (.error _, left, d) =>
          { s with
            receivers := Function.update s.receivers id left
            log := s.log ++ d.sent.map (.sent id)
            result := some (.error .channelReceiverDropped) }
      | (.ok (), left, d) =>
          let s : IntentDispatcher := { s with
            receivers := Function.update s.receivers id left
            log := s.log ++ d.sent.map (.sent id) }
          if d.info.isComplete then s.record [.completed id]
          else
            { s with
              intents := Function.update s.intents id (some d.info)
              intentUpdateRx := Function.update s.intentUpdateRx id intent.hasChannels
              log := s.log ++ [.output (.submitInterests interests)] }

/-- `update_intent`. Its errors are only logged by `run`. -/
def updateIntent (s : IntentDispatcher) (id : IntentId) (auth : Auth) :
    IntentUpdate → IntentDispatcher
  | .addInterests interests =>
      match auth.resolveInterests interests with
      | none => s
      | some addInterests =>
          match s.intents id with
          | none => s
          | some info =>
              { s with
                intents := Function.update s.intents id (some (info.mergeInterests addInterests))
                log := s.log ++ [.submitted id addInterests, .output (.submitInterests addInterests)] }
  | .close => s.cancelIntent id

/-- The update sender of an intent was dropped. -/
def updatesClosed (s : IntentDispatcher) (id : IntentId) : IntentDispatcher :=
  let s := { s with intentUpdateRx := Function.update s.intentUpdateRx id false }
  let eventsTxClosed := match s.intents id with
    | none => true
    | some info => info.eventsClosed (s.receivers id)
  if eventsTxClosed then s.cancelIntent id else s

/-- What may happen. -/
inductive Action where
  /-- An intent is submitted, initially or through the inbox. -/
  | submitIntent (auth : Auth) (intent : Intent) (order : List (NamespaceId × AreaOfInterest))
  /-- The session reports an event. -/
  | emitEvent (event : EventKind)
  /-- An update of an intent arrives. -/
  | updateIntent (id : IntentId) (auth : Auth) (update : IntentUpdate)
  /-- The end of the updates of an intent arrives. -/
  | updatesClosed (id : IntentId)
  /-- The client drops the event receiver once it has taken `left` more
  events. The intent may not be submitted yet. -/
  | dropReceiver (id : IntentId) (left : Nat)
  /-- All senders of the inbox are gone. -/
  | closeInbox

/-- One step; `none` when the action is not possible. -/
def step (s : IntentDispatcher) : Action → Option IntentDispatcher
  | .submitIntent auth intent order =>
      if s.result.isNone ∧ order.Perm s.completeAreas.toList then
        some (s.submitIntent auth intent order)
      else none
  | .emitEvent event => some (s.emitEvent event)
  | .updateIntent id auth update =>
      if s.result.isNone ∧ s.intentUpdateRx id = true then some (s.updateIntent id auth update)
      else none
  | .updatesClosed id =>
      if s.result.isNone ∧ s.intentUpdateRx id = true then some (s.updatesClosed id) else none
  | .dropReceiver id left =>
      if s.receivers id = none then
        some { s with receivers := Function.update s.receivers id (some left) }
      else none
  | .closeInbox => if s.result.isNone then some { s with result := some (.ok ()) } else none

/-- What a step does, action by action, and when it is possible. -/
inductive Step (s : IntentDispatcher) : Action → IntentDispatcher → Prop
  | submitIntent (auth : Auth) (intent : Intent) (order : List (NamespaceId × AreaOfInterest))
      (hrunning : s.result = none) (horder : order.Perm s.completeAreas.toList) :
      Step s (.submitIntent auth intent order) (s.submitIntent auth intent order)
  | emitEvent (event : EventKind) : Step s (.emitEvent event) (s.emitEvent event)
  | updateIntent (id : IntentId) (auth : Auth) (update : IntentUpdate)
      (hrunning : s.result = none) (hopen : s.intentUpdateRx id = true) :
      Step s (.updateIntent id auth update) (s.updateIntent id auth update)
  | updatesClosed (id : IntentId) (hrunning : s.result = none)
      (hopen : s.intentUpdateRx id = true) : Step s (.updatesClosed id) (s.updatesClosed id)
  | dropReceiver (id : IntentId) (left : Nat) (hthere : s.receivers id = none) :
      Step s (.dropReceiver id left)
        { s with receivers := Function.update s.receivers id (some left) }
  | closeInbox (hrunning : s.result = none) :
      Step s .closeInbox { s with result := some (.ok ()) }

/-- A step of the dispatcher is one of these. -/
theorem step_sound {s s' : IntentDispatcher} {a : Action} (h : s.step a = some s') :
    Step s a s' := by
  cases a with
  | submitIntent auth intent order =>
      simp only [step] at h
      split at h
      · rename_i hguard
        obtain rfl := Option.some.inj h
        exact .submitIntent auth intent order (Option.isNone_iff_eq_none.mp hguard.1) hguard.2
      · cases h
  | emitEvent event =>
      obtain rfl := Option.some.inj h
      exact .emitEvent event
  | updateIntent id auth update =>
      simp only [step] at h
      split at h
      · rename_i hguard
        obtain rfl := Option.some.inj h
        exact .updateIntent id auth update (Option.isNone_iff_eq_none.mp hguard.1) hguard.2
      · cases h
  | updatesClosed id =>
      simp only [step] at h
      split at h
      · rename_i hguard
        obtain rfl := Option.some.inj h
        exact .updatesClosed id (Option.isNone_iff_eq_none.mp hguard.1) hguard.2
      · cases h
  | dropReceiver id left =>
      simp only [step] at h
      split at h
      · rename_i hthere
        obtain rfl := Option.some.inj h
        exact .dropReceiver id left hthere
      · cases h
  | closeInbox =>
      simp only [step] at h
      split at h
      · rename_i hrunning
        obtain rfl := Option.some.inj h
        exact .closeInbox (Option.isNone_iff_eq_none.mp hrunning)
      · cases h

/-- A session: the actions of a run from the start. -/
def run (actions : List Action) : Option IntentDispatcher := Transition.run step {} actions

end IntentDispatcher

end Intents

end IrohWillow
