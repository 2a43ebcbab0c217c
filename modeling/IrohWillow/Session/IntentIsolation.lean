import IrohWillow.Session.IntentCompletion

/-!
# Intents do not disturb each other

A client may drop its handle at any moment: the event receiver, the update
sender, or both. To the other intents this makes no difference as long as the
session goes on, but a new intent whose receiver is gone before it was told
about the areas that are complete already ends the session for all
(`intents_isolated_iff`). Everywhere else a receiver that is gone is taken care
of.

A run is compared with the one in which intents are closed instead of dropped
(`closing`). The two agree on all intents that are not dropped (`Agree`).
-/

namespace IrohWillow.Intents

open Fallible

section Isolation

variable [AreaIntersection]

/-! ## What a new intent is told -/

/-- The events that tell a new intent about the complete areas. -/
def catchUpEvents : IntentInfo → List (NamespaceId × AreaOfInterest) → List EventKind
  | _, [] => []
  | info, (ns, area) :: rest =>
      let completed := info.completeAreaIfMatches ns area.area
      let now := if completed.1 then
          .reconciled ns area :: (if completed.2.interests.isEmpty then [.reconciledAll] else [])
        else []
      now ++ catchUpEvents completed.2 rest

/-- How many operations it takes to send events to an intent. -/
def sendingCost (info : IntentInfo) (n : Nat) : Nat := if info.hasEventTx then n else 0

omit [AreaIntersection] in
theorem sendingCost_add (info : IntentInfo) (n k : Nat) :
    sendingCost info (n + k) = sendingCost info n + sendingCost info k := by
  unfold sendingCost
  split <;> rfl

@[simp] theorem completeAreaIfMatches_hasEventTx (info : IntentInfo) (ns : NamespaceId)
    (area : Area) : (info.completeAreaIfMatches ns area).2.hasEventTx = info.hasEventTx := by
  unfold IntentInfo.completeAreaIfMatches
  split
  · rfl
  · split
    · dsimp only
      split <;> rfl
    · rfl

omit [AreaIntersection] in
theorem send_costs (event : EventKind) (d : Delivery) :
    ∃ d', Costs (send event) d (sendingCost d.info 1) () d' ∧ d'.info = d.info := by
  unfold sendingCost
  cases hchannel : d.info.hasEventTx with
  | false =>
      have hsend : ∀ left, send event left d = (.ok (), left, d) := by
        intro left
        unfold send
        rw [hchannel]
        rfl
      refine ⟨d, ⟨hsend none, fun k _ => hsend (some k), fun k hk => ?_⟩, rfl⟩
      exact absurd hk (Nat.not_lt_zero k)
  | true =>
      have hsend : ∀ left, send event left d =
          operation .mk (fun d : Delivery => ((), { d with sent := d.sent ++ [event] })) left d := by
        intro left
        unfold send
        rw [hchannel]
        rfl
      have hcosts : Costs (operation ChannelReceiverDropped.mk
          fun d : Delivery => ((), { d with sent := d.sent ++ [event] })) d 1 ()
          { d with sent := d.sent ++ [event] } := Costs.operation
      refine ⟨{ d with sent := d.sent ++ [event] }, ⟨?_, fun k hk => ?_, fun k hk => ?_⟩, rfl⟩
      · rw [hsend]
        exact hcosts.always
      · rw [hsend]
        exact hcosts.enough k hk
      · rw [hsend]
        exact hcosts.tooFew k hk

omit [AreaIntersection] in
/-- An event, and `ReconciledAll` after it when no interest is left. -/
theorem sendBoth_costs (event : EventKind) (b : Bool) (d : Delivery) :
    ∃ d', Costs (do
        send event
        let isEmpty ← noInterests
        when (b && isEmpty) (send .reconciledAll)) d
      (sendingCost d.info (if b && d.info.interests.isEmpty then 2 else 1)) () d' ∧
        d'.info = d.info := by
  obtain ⟨d', hfirst, hinfo⟩ := send_costs event d
  cases hlast : b && d.info.interests.isEmpty with
  | false =>
      refine ⟨d', hfirst.bind (k := 0) (Costs.access_bind ?_), hinfo⟩
      show Costs (when (b && d'.info.interests.isEmpty) _) _ _ _ _
      rw [hinfo, hlast]
      exact .when_false
  | true =>
      obtain ⟨d'', hsecond, hinfo'⟩ := send_costs .reconciledAll d'
      rw [hinfo] at hsecond
      refine ⟨d'', ?_, hinfo'.trans hinfo⟩
      rw [if_pos rfl, sendingCost_add d.info 1 1]
      refine hfirst.bind (Costs.access_bind ?_)
      show Costs (when (b && d'.info.interests.isEmpty) _) _ _ _ _
      rw [hinfo, hlast]
      exact hsecond.when_true

theorem onReconciled_costs (ns : NamespaceId) (area : AreaOfInterest) (d : Delivery) :
    ∃ d', Costs (onReconciled ns area) d
      (sendingCost d.info (catchUpEvents d.info [(ns, area)]).length) () d' ∧
        d'.info = (d.info.completeAreaIfMatches ns area.area).2 := by
  have hevents : catchUpEvents d.info [(ns, area)] =
      if (d.info.completeAreaIfMatches ns area.area).1 then
        .reconciled ns area ::
          (if (d.info.completeAreaIfMatches ns area.area).2.interests.isEmpty then
            [.reconciledAll] else [])
      else [] := List.append_nil _
  rw [hevents]
  cases hmatch : (d.info.completeAreaIfMatches ns area.area).1 with
  | false =>
      refine ⟨{ d with info := (d.info.completeAreaIfMatches ns area.area).2 },
        Costs.access_bind ?_, rfl⟩
      rw [hmatch, if_neg Bool.false_ne_true, List.length_nil,
        show sendingCost d.info 0 = 0 from ite_self 0]
      exact .when_false
  | true =>
      obtain ⟨d', hboth, hinfo⟩ := sendBoth_costs (.reconciled ns area) true
        { d with info := (d.info.completeAreaIfMatches ns area.area).2 }
      refine ⟨d', Costs.access_bind ?_, hinfo⟩
      rw [hmatch]
      have hcost : sendingCost (d.info.completeAreaIfMatches ns area.area).2 = sendingCost d.info := by
        funext n
        simp [sendingCost]
      rw [hcost] at hboth
      rw [if_pos rfl]
      have hlength : (EventKind.reconciled ns area ::
          (if (d.info.completeAreaIfMatches ns area.area).2.interests.isEmpty then
            [.reconciledAll] else [])).length =
          if true && (d.info.completeAreaIfMatches ns area.area).2.interests.isEmpty then 2
          else 1 := by
        cases (d.info.completeAreaIfMatches ns area.area).2.interests.isEmpty <;> rfl
      rw [hlength]
      exact hboth.when_true

/-- **Catching up** takes one operation for each event. -/
theorem catchUp_costs (order : List (NamespaceId × AreaOfInterest)) (d : Delivery) :
    ∃ d', Costs (catchUp order) d (sendingCost d.info (catchUpEvents d.info order).length) () d' := by
  induction order generalizing d with
  | nil =>
      refine ⟨d, ?_⟩
      rw [show sendingCost d.info (catchUpEvents d.info []).length = 0 from ite_self 0]
      exact Costs.pure
  | cons e rest ih =>
      obtain ⟨ns, area⟩ := e
      obtain ⟨d', hfirst, hinfo⟩ := onReconciled_costs ns area d
      obtain ⟨d'', hrest⟩ := ih d'
      refine ⟨d'', ?_⟩
      have hcost : sendingCost d.info (catchUpEvents d.info ((ns, area) :: rest)).length =
          sendingCost d.info (catchUpEvents d.info [(ns, area)]).length +
            sendingCost d'.info (catchUpEvents d'.info rest).length := by
        have hsame : sendingCost d'.info = sendingCost d.info := by
          funext n
          simp [sendingCost, hinfo]
        rw [hsame, ← sendingCost_add, hinfo]
        simp [catchUpEvents]
      rw [hcost]
      exact hfirst.bind hrest

theorem matchesEvent_costs (event : EventKind) (d : Delivery) :
    ∃ b d', Costs (matchesEvent event) d 0 b d' := by
  cases event with
  | capabilityIntersection ns area => exact ⟨_, _, Costs.access⟩
  | interestIntersection ns area => exact ⟨_, _, Costs.access⟩
  | reconciled ns area => exact ⟨_, _, Costs.access⟩
  | reconciledAll => exact ⟨_, _, Costs.pure⟩
  | abort error => exact ⟨_, _, Costs.pure⟩

theorem handleEvent_costs (event : EventKind) (d : Delivery) :
    ∃ n b d', Costs (handleEvent event) d n b d' := by
  obtain ⟨b, d', hmatch⟩ := matchesEvent_costs event d
  cases b with
  | false => exact ⟨_, _, _, hmatch.bind (Costs.when_false.bind Costs.access)⟩
  | true =>
      obtain ⟨d'', hboth, -⟩ := sendBoth_costs event event.isReconciled d'
      exact ⟨_, _, _, hmatch.bind (hboth.when_true.bind Costs.access)⟩

namespace IntentDispatcher

/-! ## One intent in the log -/

omit [AreaIntersection] in
/-- The event that the effect sends to the intent. -/
def eventOf (id : IntentId) : Effect → Option EventKind
  | .sent id' event => if id' = id then some event else none
  | _ => none

/-- The events that an intent receives. -/
def eventsOf (id : IntentId) (log : List Effect) : List EventKind := log.filterMap (eventOf id)

section Events

omit [AreaIntersection]

variable {id id' : IntentId} {l l' : List Effect} {s : IntentDispatcher}

@[simp] theorem eventsOf_append : eventsOf id (l ++ l') = eventsOf id l ++ eventsOf id l' :=
  List.filterMap_append

@[simp] theorem eventsOf_sent (events : List EventKind) :
    eventsOf id (events.map (Effect.sent id)) = events := by
  unfold eventsOf
  rw [List.filterMap_map]
  simp [Function.comp_def, eventOf]

theorem eventsOf_sent_ne (events : List EventKind) (h : id' ≠ id) :
    eventsOf id (events.map (Effect.sent id')) = [] := by
  unfold eventsOf
  rw [List.filterMap_map]
  simp [Function.comp_def, eventOf, h]

theorem eventsOf_eq_nil (h : ∀ e ∈ l, ∀ id event, e ≠ .sent id event) : eventsOf id l = [] := by
  refine List.filterMap_eq_nil_iff.mpr fun e he => ?_
  cases e with
  | sent id' event => exact absurd rfl (h _ he id' event)
  | submitted id' interests => rfl
  | processed ns area => rfl
  | completed id' => rfl
  | cancelled id' => rfl
  | output output => rfl

@[simp] theorem eventsOf_yieldIfDropped : eventsOf id s.yieldIfDropped.log = eventsOf id s.log := by
  unfold yieldIfDropped
  split
  · simp [record, eventsOf, eventOf]
  · rfl

@[simp] theorem eventsOf_cancelIntent :
    eventsOf id (s.cancelIntent id').log = eventsOf id s.log := by
  unfold cancelIntent
  rw [eventsOf_yieldIfDropped]
  simp [cancelIntentInner, eventsOf, eventOf]

/-- Each intent finds its own events among those of all intents. -/
theorem eventsOf_flatMap_range {f : IntentId → List Effect}
    (hf : ∀ id', id' ≠ id → eventsOf id (f id') = []) (n : Nat) :
    eventsOf id ((List.range n).flatMap f) = if id < n then eventsOf id (f id) else [] := by
  induction n with
  | zero => rfl
  | succ n ih =>
      rw [List.range_succ, List.flatMap_append, eventsOf_append, ih, List.flatMap_singleton]
      by_cases hn : n = id
      · subst hn
        simp
      · rw [hf n hn, List.append_nil]
        have hiff : id < n + 1 ↔ id < n :=
          Nat.lt_succ_iff_lt_or_eq.trans (or_iff_left (Ne.symm hn))
        simp only [hiff]

end Events

/-! ## Steps for one intent -/

variable {s s' t t' : IntentDispatcher} {id : IntentId} {D : List IntentId}

/-- The two states agree on an intent, whose receiver is not dropped. -/
structure SameFor (id : IntentId) (s t : IntentDispatcher) : Prop where
  intents : t.intents id = s.intents id
  intentUpdateRx : t.intentUpdateRx id = s.intentUpdateRx id
  receiver : s.receivers id = none
  events : eventsOf id t.log = eventsOf id s.log

theorem handle_congr (hreceivers : t.receivers id = s.receivers id)
    (hrx : t.intentUpdateRx id = s.intentUpdateRx id) (event : EventKind) (info : IntentInfo) :
    t.handle event id info = s.handle event id info := by
  unfold handle
  rw [hreceivers, hrx]

/-- A receiver that is not dropped stays. -/
theorem handle_left (hreceiver : s.receivers id = none) (event : EventKind) (info : IntentInfo) :
    (s.handle event id info).left = none := by
  obtain ⟨n, b, d, hcosts⟩ := handleEvent_costs event { info := info }
  unfold handle
  rw [hreceiver, hcosts.always]

/-- The effects of an event that are sent to an intent. -/
theorem eventsOf_effects {event : EventKind} {id' : IntentId} {info : IntentInfo} :
    eventsOf id ((s.handle event id' info).effects id') =
      if id' = id then (s.handle event id' info).delivery.sent else [] := by
  have hended : eventsOf id (s.handle event id' info).ended.toList = [] := by
    refine eventsOf_eq_nil fun e he id event => ?_
    rcases ended_eq_some (Option.mem_toList.mp he) with rfl | rfl
    · simp
    · simp
  unfold Handled.effects
  rw [eventsOf_append, hended, List.append_nil]
  split
  · rename_i hid
    subst hid
    exact eventsOf_sent _
  · rename_i hid
    exact eventsOf_sent_ne _ hid

theorem eventsOf_emitEventInner (event : EventKind) :
    eventsOf id (s.emitEventInner event).log = eventsOf id s.log ++ if id < s.nextIntentId then
      ((s.intents id).map fun info => (s.handle event id info).delivery.sent).getD [] else [] := by
  have hreport : eventsOf id (reported event) = [] := by
    refine eventsOf_eq_nil ?_
    cases event <;> simp [reported]
  unfold emitEventInner
  dsimp only
  rw [eventsOf_append, eventsOf_append, hreport, List.append_nil, eventsOf_flatMap_range]
  · congr 2
    cases s.intents id with
    | none => rfl
    | some info => exact eventsOf_effects.trans (if_pos rfl)
  · intro id' hne
    cases s.intents id' with
    | none => rfl
    | some info => exact eventsOf_effects.trans (if_neg hne)

theorem emitEventInner_receivers (hreceiver : s.receivers id = none) (event : EventKind) :
    (s.emitEventInner event).receivers id = none := by
  unfold emitEventInner
  dsimp only
  cases s.intents id with
  | none => exact hreceiver
  | some info => exact handle_left hreceiver event info

/-- **An event of the session** is the same for an intent in both states. -/
theorem SameFor.emitEventInner (h : SameFor id s t) (hreceivers : t.receivers id = none)
    (hnext : t.nextIntentId = s.nextIntentId) (event : EventKind) :
    SameFor id (s.emitEventInner event) (t.emitEventInner event) := by
  have hhandle : t.handle event id = s.handle event id := by
    funext info
    exact handle_congr (hreceivers.trans h.receiver.symm) h.intentUpdateRx event info
  refine ⟨?_, ?_, ?_, ?_⟩
  · simp only [IntentDispatcher.emitEventInner, h.intents, hhandle]
  · simp only [IntentDispatcher.emitEventInner, h.intents, h.intentUpdateRx, hhandle]
  · exact emitEventInner_receivers h.receiver event
  · rw [eventsOf_emitEventInner, eventsOf_emitEventInner, h.events, h.intents, hnext]
    simp only [hhandle]

/-- The two states are the same but for one intent. -/
structure ChangesOnly (id : IntentId) (s s' : IntentDispatcher) : Prop where
  nextIntentId : s'.nextIntentId = s.nextIntentId
  completeAreas : s'.completeAreas = s.completeAreas
  result : s'.result = s.result
  intents : ∀ id', id' ≠ id → s'.intents id' = s.intents id'
  intentUpdateRx : ∀ id', id' ≠ id → s'.intentUpdateRx id' = s.intentUpdateRx id'
  receivers : ∀ id', id' ≠ id → s'.receivers id' = s.receivers id'
  events : ∀ id', id' ≠ id → eventsOf id' s'.log = eventsOf id' s.log

section Changes

omit [AreaIntersection]

theorem ChangesOnly.trans {s'' : IntentDispatcher} (h : ChangesOnly id s s')
    (h' : ChangesOnly id s' s'') : ChangesOnly id s s'' where
  nextIntentId := h'.nextIntentId.trans h.nextIntentId
  completeAreas := h'.completeAreas.trans h.completeAreas
  result := h'.result.trans h.result
  intents id' hne := (h'.intents id' hne).trans (h.intents id' hne)
  intentUpdateRx id' hne := (h'.intentUpdateRx id' hne).trans (h.intentUpdateRx id' hne)
  receivers id' hne := (h'.receivers id' hne).trans (h.receivers id' hne)
  events id' hne := (h'.events id' hne).trans (h.events id' hne)

theorem changesOnly_cancelIntent (s : IntentDispatcher) (id : IntentId) :
    ChangesOnly id s (s.cancelIntent id) where
  nextIntentId := yieldIfDropped_nextIntentId _
  completeAreas := yieldIfDropped_completeAreas _
  result := yieldIfDropped_result _
  intents id' hne := (congrFun (yieldIfDropped_intents _) id').trans
    (cancelIntentInner_intents_ne s hne)
  intentUpdateRx id' hne := (congrFun (yieldIfDropped_intentUpdateRx _) id').trans
    (cancelIntentInner_intentUpdateRx_ne s hne)
  receivers id' _ := congrFun (yieldIfDropped_receivers _) id'
  events _ _ := eventsOf_cancelIntent

theorem changesOnly_updatesClosed (s : IntentDispatcher) (id : IntentId) :
    ChangesOnly id s (s.updatesClosed id) := by
  have hremoved : ChangesOnly id s
      { s with intentUpdateRx := Function.update s.intentUpdateRx id false } :=
    ⟨rfl, rfl, rfl, fun _ _ => rfl, fun id' hne => Function.update_of_ne hne _ _, fun _ _ => rfl,
      fun _ _ => rfl⟩
  rcases updatesClosed_cases s id with heq | heq
  · rw [heq]
    exact hremoved.trans (changesOnly_cancelIntent _ id)
  · rw [heq]
    exact hremoved

theorem changesOnly_updateIntent (s : IntentDispatcher) (id : IntentId) (auth : Auth)
    (update : IntentUpdate) : ChangesOnly id s (s.updateIntent id auth update) := by
  have hsame : ChangesOnly id s s :=
    ⟨rfl, rfl, rfl, fun _ _ => rfl, fun _ _ => rfl, fun _ _ => rfl, fun _ _ => rfl⟩
  cases update with
  | close => exact changesOnly_cancelIntent s id
  | addInterests interests =>
      unfold updateIntent
      dsimp only
      split
      · exact hsame
      · split
        · exact hsame
        · refine ⟨rfl, rfl, rfl, fun id' hne => Function.update_of_ne hne _ _, fun _ _ => rfl,
            fun _ _ => rfl, fun id' _ => ?_⟩
          simp [eventsOf, eventOf]

end Changes

/-! ## Closing instead of dropping -/

/-- The client closes the intent. -/
def Action.close (id : IntentId) : Action := .updateIntent id ⟨none, fun _ => none⟩ .close

/-- Close the intent if it still takes updates. -/
def closeIfActive (t : IntentDispatcher) (id : IntentId) : List Action :=
  if t.result.isNone ∧ t.intentUpdateRx id = true then [.close id] else []

/-- The intents whose event receiver or update sender the action drops. -/
def Action.drops : Action → List IntentId
  | .dropReceiver id _ => [id]
  | .updatesClosed id => [id]
  | _ => []

/-- What takes the place of an action in `t` when the intents in `D` have been
closed instead of dropped. -/
def inPlaceOf (D : List IntentId) (t : IntentDispatcher) : Action → List Action
  | .dropReceiver id _ => t.closeIfActive id
  | .updatesClosed id => t.closeIfActive id
  | .updateIntent id auth update => if id ∈ D then [] else [.updateIntent id auth update]
  | .submitIntent auth intent order =>
      -- the handle may be dropped before the intent is submitted
      .submitIntent auth intent order ::
        if t.nextIntentId ∈ D then (t.submitIntent auth intent order).closeIfActive t.nextIntentId
        else []
  | a => [a]

/-- The run in which intents are closed instead of dropped. -/
def closing (D : List IntentId) (t : IntentDispatcher) : List Action → List Action
  | [] => []
  | a :: rest => inPlaceOf D t a ++ match Transition.run step t (inPlaceOf D t a) with
      | none => []
      | some t' => closing (D ++ a.drops) t' rest

/-- `t` is as `s`, but the intents in `D` were closed and not dropped. -/
structure Agree (D : List IntentId) (s t : IntentDispatcher) : Prop where
  nextIntentId : t.nextIntentId = s.nextIntentId
  completeAreas : t.completeAreas = s.completeAreas
  result : t.result = s.result
  receivers : ∀ id, t.receivers id = none
  sameFor : ∀ id, id ∉ D → SameFor id s t

omit [AreaIntersection] in
theorem Agree.start : Agree [] {} {} where
  nextIntentId := rfl
  completeAreas := rfl
  result := rfl
  receivers _ := rfl
  sameFor _ _ := ⟨rfl, rfl, rfl, rfl⟩

omit [AreaIntersection] in
theorem Agree.mono {D' : List IntentId} (h : Agree D s t) (hle : D ⊆ D') : Agree D' s t :=
  { h with sameFor := fun id hid => h.sameFor id fun hmem => hid (hle hmem) }

omit [AreaIntersection] in
/-- What happens to a dropped intent does not matter. -/
theorem Agree.changesOnly (h : Agree D s t) (hid : id ∈ D) (hs : ChangesOnly id s s') :
    Agree D s' t where
  nextIntentId := h.nextIntentId.trans hs.nextIntentId.symm
  completeAreas := h.completeAreas.trans hs.completeAreas.symm
  result := h.result.trans hs.result.symm
  receivers := h.receivers
  sameFor id' hid' := by
    have hne : id' ≠ id := fun heq => hid' (heq ▸ hid)
    have hsame := h.sameFor id' hid'
    exact ⟨hsame.intents.trans (hs.intents id' hne).symm,
      hsame.intentUpdateRx.trans (hs.intentUpdateRx id' hne).symm,
      (hs.receivers id' hne).trans hsame.receiver, hsame.events.trans (hs.events id' hne).symm⟩

/-- An intent that was dropped is closed. -/
theorem Agree.closeIfActive (h : Agree D s t) (hid : id ∈ D) :
    ∃ t', Transition.run step t (t.closeIfActive id) = some t' ∧ Agree D s t' := by
  unfold IntentDispatcher.closeIfActive
  split
  · rename_i hactive
    have ht := changesOnly_cancelIntent t id
    refine ⟨t.cancelIntent id, ?_, ?_⟩
    · simp only [Transition.run, Action.close, step, if_pos hactive, updateIntent,
        Option.bind_some]
    · refine ⟨ht.nextIntentId.trans h.nextIntentId, ht.completeAreas.trans h.completeAreas,
        ht.result.trans h.result, fun id' => ?_, fun id' hid' => ?_⟩
      · exact (congrFun (yieldIfDropped_receivers _) id').trans (h.receivers id')
      · have hne : id' ≠ id := fun heq => hid' (heq ▸ hid)
        have hsame := h.sameFor id' hid'
        exact ⟨(ht.intents id' hne).trans hsame.intents,
          (ht.intentUpdateRx id' hne).trans hsame.intentUpdateRx, hsame.receiver,
          (ht.events id' hne).trans hsame.events⟩
  · exact ⟨t, rfl, h⟩

/-! ## Steps side by side -/

theorem Agree.emitEventInner (h : Agree D s t) (event : EventKind) :
    Agree D (s.emitEventInner event) (t.emitEventInner event) where
  nextIntentId := h.nextIntentId
  completeAreas := congrArg (addComplete · event) h.completeAreas
  result := h.result
  receivers id := emitEventInner_receivers (h.receivers id) event
  sameFor id hid := (h.sameFor id hid).emitEventInner (h.receivers id) h.nextIntentId event

omit [AreaIntersection] in
theorem Agree.yieldIfDropped (h : Agree D s t) : Agree D s.yieldIfDropped t.yieldIfDropped where
  nextIntentId := by simpa using h.nextIntentId
  completeAreas := by simpa using h.completeAreas
  result := by simpa using h.result
  receivers id := by simpa using h.receivers id
  sameFor id hid := by
    have hsame := h.sameFor id hid
    exact ⟨by simpa using hsame.intents, by simpa using hsame.intentUpdateRx,
      by simpa using hsame.receiver, by simpa using hsame.events⟩

theorem Agree.emitEvent (h : Agree D s t) (event : EventKind) :
    Agree D (s.emitEvent event) (t.emitEvent event) := by
  unfold IntentDispatcher.emitEvent
  rw [h.result]
  split
  · exact (h.emitEventInner event).yieldIfDropped
  · exact h.emitEventInner event

omit [AreaIntersection] in
@[simp] theorem updateIntent_receivers (auth : Auth) (update : IntentUpdate) :
    (s.updateIntent id auth update).receivers = s.receivers := by
  cases update with
  | close => exact yieldIfDropped_receivers _
  | addInterests interests =>
      simp only [updateIntent]
      split
      · rfl
      · split <;> rfl

omit [AreaIntersection] in
/-- An update is the same for its intent in both states. -/
theorem SameFor.updateIntent (h : SameFor id s t) (auth : Auth) (update : IntentUpdate) :
    SameFor id (s.updateIntent id auth update) (t.updateIntent id auth update) := by
  cases update with
  | close =>
      simp only [IntentDispatcher.updateIntent]
      refine ⟨?_, ?_, ?_, ?_⟩
      · simp [cancelIntent]
      · simp [cancelIntent, cancelIntentInner]
      · exact (congrFun (yieldIfDropped_receivers _) id).trans h.receiver
      · simpa using h.events
  | addInterests interests =>
      simp only [IntentDispatcher.updateIntent, h.intents]
      split
      · exact h
      · split
        · exact h
        · refine ⟨?_, h.intentUpdateRx, h.receiver, ?_⟩
          · dsimp only
            rw [Function.update_self, Function.update_self]
          · have hquiet : ∀ addInterests : InterestMap, eventsOf id [.submitted id addInterests,
                .output (.submitInterests addInterests)] = [] := fun _ => rfl
            simp only [eventsOf_append, hquiet, h.events]

omit [AreaIntersection] in
theorem Agree.updateIntent (h : Agree D s t) (hid : id ∉ D) (auth : Auth) (update : IntentUpdate) :
    Agree D (s.updateIntent id auth update) (t.updateIntent id auth update) := by
  have hs := changesOnly_updateIntent s id auth update
  have ht := changesOnly_updateIntent t id auth update
  refine ⟨?_, ?_, ?_, ?_, ?_⟩
  · rw [hs.nextIntentId, ht.nextIntentId, h.nextIntentId]
  · rw [hs.completeAreas, ht.completeAreas, h.completeAreas]
  · rw [hs.result, ht.result, h.result]
  · intro id'
    rw [updateIntent_receivers]
    exact h.receivers id'
  · intro id' hid'
    -- the update concerns this intent only
    by_cases hne : id' = id
    · subst hne
      exact (h.sameFor id' hid).updateIntent auth update
    · have hother := h.sameFor id' hid'
      refine ⟨?_, ?_, ?_, ?_⟩
      · rw [hs.intents id' hne, ht.intents id' hne, hother.intents]
      · rw [hs.intentUpdateRx id' hne, ht.intentUpdateRx id' hne, hother.intentUpdateRx]
      · rw [hs.receivers id' hne, hother.receiver]
      · rw [hs.events id' hne, ht.events id' hne, hother.events]

/-! ### A new intent -/

omit [AreaIntersection] in
/-- `IntentInfo` of a new intent. -/
def newInfo (intent : Intent) (interests : InterestMap) : IntentInfo :=
  { interests := flattenInterests interests
    mode := intent.mode
    hasEventTx := intent.hasChannels }

/-- The receiver of a new intent is gone before the intent was told about the
complete areas. -/
def Abandoned (s : IntentDispatcher) : Action → Prop
  | .submitIntent auth intent order =>
      match auth.resolveInterests intent.interests, s.receivers s.nextIntentId with
      | some interests, some left => intent.hasChannels = true ∧
          left < (catchUpEvents (newInfo intent interests) order).length
      | _, _ => False
  | _ => False

/-- What a submission does when the intent can be told about the complete
areas. -/
structure Submits (s s' : IntentDispatcher) (left : Option Nat) (d : Delivery) (hasChannels : Bool) :
    Prop where
  nextIntentId : s'.nextIntentId = s.nextIntentId + 1
  completeAreas : s'.completeAreas = s.completeAreas
  result : s'.result = s.result
  receivers : s'.receivers = Function.update s.receivers s.nextIntentId left
  intents : s'.intents = if d.info.isComplete then s.intents
    else Function.update s.intents s.nextIntentId (some d.info)
  intentUpdateRx : s'.intentUpdateRx = if d.info.isComplete then s.intentUpdateRx
    else Function.update s.intentUpdateRx s.nextIntentId hasChannels
  events : ∀ id, eventsOf id s'.log = eventsOf id s.log ++
    if id = s.nextIntentId then d.sent else []

theorem submits_of_catchUp {auth : Auth} {intent : Intent} {interests : InterestMap}
    {order : List (NamespaceId × AreaOfInterest)} {left : Option Nat} {d : Delivery}
    (hresolve : auth.resolveInterests intent.interests = some interests)
    (hcatchUp : catchUp order (s.receivers s.nextIntentId) { info := newInfo intent interests } =
      (.ok (), left, d)) :
    Submits s (s.submitIntent auth intent order) left d intent.hasChannels := by
  have hevents : ∀ id, eventsOf id (d.sent.map (.sent s.nextIntentId)) =
      if id = s.nextIntentId then d.sent else [] := by
    intro id
    split
    · rename_i hid
      subst hid
      exact eventsOf_sent d.sent
    · rename_i hid
      exact eventsOf_sent_ne d.sent (Ne.symm hid)
  have hquiet : ∀ id e, (∀ id' event, e ≠ .sent id' event) → eventsOf id [e] = [] :=
    fun id e he => eventsOf_eq_nil fun e' he' => List.mem_singleton.mp he' ▸ he
  unfold newInfo at hcatchUp
  unfold submitIntent
  rw [hresolve]
  dsimp only
  rw [hcatchUp]
  dsimp only
  cases hcomplete : d.info.isComplete with
  | true =>
      refine ⟨rfl, rfl, rfl, rfl, (if_pos hcomplete).symm, (if_pos hcomplete).symm, fun id => ?_⟩
      simp only [record, if_true, eventsOf_append, hevents]
      rw [hquiet id _ (by simp), hquiet id _ (by simp)]
      simp
  | false =>
      have hnot : ¬ d.info.isComplete = true := Bool.eq_false_iff.mp hcomplete
      refine ⟨rfl, rfl, rfl, rfl, (if_neg hnot).symm, (if_neg hnot).symm, fun id => ?_⟩
      simp only [Bool.false_eq_true, if_false, eventsOf_append, hevents]
      rw [hquiet id _ (by simp), hquiet id _ (by simp)]
      simp

/-- Telling a new intent about the complete areas fails exactly if it is
abandoned. -/
theorem catchUp_isError_iff {auth : Auth} {intent : Intent} {interests : InterestMap}
    {order : List (NamespaceId × AreaOfInterest)}
    (hresolve : auth.resolveInterests intent.interests = some interests) :
    (∃ e left d, catchUp order (s.receivers s.nextIntentId) { info := newInfo intent interests } =
      (.error e, left, d)) ↔ Abandoned s (.submitIntent auth intent order) := by
  obtain ⟨d, hcosts⟩ := catchUp_costs order { info := newInfo intent interests }
  rw [hcosts.isError_iff]
  simp only [Abandoned, hresolve]
  cases s.receivers s.nextIntentId with
  | none => simp
  | some left =>
      simp only [Option.some.injEq, exists_eq_left', sendingCost]
      show left < (if intent.hasChannels = true then _ else 0) ↔ _
      split
      · rename_i hchannels
        exact (and_iff_right hchannels).symm
      · rename_i hchannels
        exact ⟨fun h => absurd h (Nat.not_lt_zero _), fun h => absurd h.1 hchannels⟩

/-- What a submission can come to when its interests are resolved: it is abandoned, or the
intent is told about the complete areas and then is complete or stays. -/
inductive Submission (s : IntentDispatcher) (auth : Auth) (intent : Intent)
    (order : List (NamespaceId × AreaOfInterest)) (interests : InterestMap)
    (s' : IntentDispatcher) : Prop
  | abandoned {left : Option Nat} {d : Delivery}
      (dropped : Abandoned s (.submitIntent auth intent order))
      (intents : s'.intents = s.intents)
      (receivers : s'.receivers = Function.update s.receivers s.nextIntentId left)
      (result : s'.result = some (.error .channelReceiverDropped))
      (log : s'.log = s.log ++ .submitted s.nextIntentId interests ::
        d.sent.map (.sent s.nextIntentId))
  | told {left : Option Nat} {d : Delivery}
      (kept : ¬ Abandoned s (.submitIntent auth intent order))
      (catchUp : catchUp order (s.receivers s.nextIntentId) { info := newInfo intent interests } =
        (.ok (), left, d))
      (submits : Submits s s' left d intent.hasChannels)
      (log : s'.log = s.log ++ .submitted s.nextIntentId interests ::
        (d.sent.map (.sent s.nextIntentId) ++ [if d.info.isComplete then
          .completed s.nextIntentId else .output (.submitInterests interests)]))

theorem submission_cases (s : IntentDispatcher) {auth : Auth} {intent : Intent}
    {interests : InterestMap} (order : List (NamespaceId × AreaOfInterest))
    (hresolve : auth.resolveInterests intent.interests = some interests) :
    Submission s auth intent order interests (s.submitIntent auth intent order) := by
  rcases hrun : catchUp order (s.receivers s.nextIntentId)
      { info := newInfo intent interests } with ⟨e | ⟨⟩, left, d⟩
  · have hdropped := (catchUp_isError_iff hresolve).mp ⟨e, left, d, hrun⟩
    unfold newInfo at hrun
    unfold submitIntent
    rw [hresolve]
    dsimp only
    rw [hrun]
    exact .abandoned hdropped rfl rfl rfl (List.append_assoc _ _ _)
  · have hkept : ¬ Abandoned s (.submitIntent auth intent order) := by
      rw [← catchUp_isError_iff hresolve]
      rintro ⟨e', left', d', hrun'⟩
      rw [hrun] at hrun'
      cases hrun'
    refine .told hkept hrun (submits_of_catchUp hresolve hrun) ?_
    unfold newInfo at hrun
    unfold submitIntent
    rw [hresolve]
    dsimp only
    rw [hrun]
    dsimp only
    split
    · simp [record]
    · simp

/-- An abandoned intent ends the session. -/
theorem result_of_abandoned {a : Action} (h : Abandoned s a) (hstep : s.step a = some s') :
    s'.result = some (.error .channelReceiverDropped) := by
  cases step_sound hstep with
  | submitIntent auth intent order hrunning horder =>
      cases hresolve : auth.resolveInterests intent.interests with
      | none =>
          simp only [Abandoned, hresolve] at h
      | some interests =>
          obtain ⟨e, left, d, hrun⟩ := (catchUp_isError_iff hresolve).mpr h
          unfold newInfo at hrun
          unfold submitIntent
          rw [hresolve]
          dsimp only
          rw [hrun]
  | emitEvent event => exact absurd h not_false
  | updateIntent id auth update hrunning hopen => exact absurd h not_false
  | updatesClosed id hrunning hopen => exact absurd h not_false
  | dropReceiver id left hthere => exact absurd h not_false
  | closeInbox hrunning => exact absurd h not_false

section Submits

omit [AreaIntersection]

variable {left : Option Nat} {d : Delivery} {hasChannels : Bool}

theorem Submits.intents_ne (h : Submits s s' left d hasChannels) (hid : id ≠ s.nextIntentId) :
    s'.intents id = s.intents id := by
  rw [h.intents]
  split
  · rfl
  · exact Function.update_of_ne hid _ _

theorem Submits.intentUpdateRx_ne (h : Submits s s' left d hasChannels)
    (hid : id ≠ s.nextIntentId) : s'.intentUpdateRx id = s.intentUpdateRx id := by
  rw [h.intentUpdateRx]
  split
  · rfl
  · exact Function.update_of_ne hid _ _

end Submits

omit [AreaIntersection] in
theorem Agree.submits {left : Option Nat} {d d' : Delivery} {hasChannels : Bool}
    (h : Agree D s t) (hs : Submits s s' left d hasChannels)
    (ht : Submits t t' none d' hasChannels)
    (hown : s.nextIntentId ∉ D → left = none ∧ d' = d) : Agree D s' t' := by
  have hreceivers : ∀ id, t'.receivers id = none := by
    intro id
    rw [ht.receivers]
    by_cases hid : id = t.nextIntentId
    · subst hid
      exact Function.update_self _ _ _
    · rw [Function.update_of_ne hid]
      exact h.receivers id
  refine ⟨?_, ?_, ?_, hreceivers, fun id hid => ?_⟩
  · rw [hs.nextIntentId, ht.nextIntentId, h.nextIntentId]
  · rw [hs.completeAreas, ht.completeAreas, h.completeAreas]
  · rw [hs.result, ht.result, h.result]
  · have hsame := h.sameFor id hid
    by_cases hnew : id = s.nextIntentId
    · subst hnew
      obtain ⟨rfl, rfl⟩ := hown hid
      refine ⟨?_, ?_, ?_, ?_⟩
      · rw [hs.intents, ht.intents, h.nextIntentId]
        split
        · exact hsame.intents
        · rw [Function.update_self, Function.update_self]
      · rw [hs.intentUpdateRx, ht.intentUpdateRx, h.nextIntentId]
        split
        · exact hsame.intentUpdateRx
        · rw [Function.update_self, Function.update_self]
      · rw [hs.receivers, Function.update_self]
      · rw [hs.events, ht.events, hsame.events, h.nextIntentId]
    · have hnew' : id ≠ t.nextIntentId := h.nextIntentId ▸ hnew
      refine ⟨?_, ?_, ?_, ?_⟩
      · rw [hs.intents_ne hnew, ht.intents_ne hnew', hsame.intents]
      · rw [hs.intentUpdateRx_ne hnew, ht.intentUpdateRx_ne hnew', hsame.intentUpdateRx]
      · rw [hs.receivers, Function.update_of_ne hnew, hsame.receiver]
      · rw [hs.events, ht.events, if_neg hnew, if_neg hnew', hsame.events]

theorem Agree.submitIntent (h : Agree D s t) {auth : Auth} {intent : Intent}
    {order : List (NamespaceId × AreaOfInterest)}
    (hgood : ¬ Abandoned s (.submitIntent auth intent order)) :
    Agree D (s.submitIntent auth intent order) (t.submitIntent auth intent order) := by
  cases hresolve : auth.resolveInterests intent.interests with
  | none =>
      simp only [IntentDispatcher.submitIntent, hresolve]
      exact ⟨h.nextIntentId, h.completeAreas, rfl, h.receivers, fun id hid =>
        ⟨(h.sameFor id hid).intents, (h.sameFor id hid).intentUpdateRx,
          (h.sameFor id hid).receiver, (h.sameFor id hid).events⟩⟩
  | some interests =>
      obtain ⟨d', hcosts⟩ := catchUp_costs order { info := newInfo intent interests }
      have hright : catchUp order (t.receivers t.nextIntentId)
          { info := newInfo intent interests } = (.ok (), none, d') := by
        rw [h.receivers]
        exact hcosts.always
      match hleft : catchUp order (s.receivers s.nextIntentId)
          { info := newInfo intent interests } with
      | (.error e, left, d) =>
          exact absurd ((catchUp_isError_iff hresolve).mp ⟨e, left, d, hleft⟩) hgood
      | (.ok (), left, d) =>
          refine h.submits (submits_of_catchUp hresolve hleft)
            (submits_of_catchUp hresolve hright) fun hid => ?_
          -- a receiver that is not dropped takes the same in both states
          rw [(h.sameFor _ hid).receiver, hcosts.always] at hleft
          obtain ⟨-, hrest⟩ := Prod.mk.inj hleft
          obtain ⟨hnone, hd⟩ := Prod.mk.inj hrest
          exact ⟨hnone.symm, hd⟩

/-- **One step**: what takes the place of an action leads to an agreeing state,
unless the action submits an abandoned intent. -/
theorem Agree.step (h : Agree D s t) {a : Action} (hgood : ¬ Abandoned s a)
    (hstep : s.step a = some s') :
    ∃ t', Transition.run step t (inPlaceOf D t a) = some t' ∧ Agree (D ++ a.drops) s' t' := by
  -- a dropped intent is closed in the other run
  have hdrop : ∀ id, ChangesOnly id s s' → ∃ t',
      Transition.run IntentDispatcher.step t (t.closeIfActive id) = some t' ∧
        Agree (D ++ [id]) s' t' := by
    intro id hs
    have hmem : id ∈ D ++ [id] := List.mem_append_right _ (List.mem_singleton_self id)
    exact ((h.mono (List.subset_append_left _ _)).changesOnly hmem hs).closeIfActive hmem
  cases step_sound hstep with
  | submitIntent auth intent order hrunning horder =>
      have hagree := h.submitIntent hgood
      have hguard : t.result.isNone = true ∧ order.Perm t.completeAreas.toList := by
        rw [h.result, h.completeAreas]
        exact ⟨Option.isNone_iff_eq_none.mpr hrunning, horder⟩
      rw [show (Action.submitIntent auth intent order).drops = [] from rfl, List.append_nil]
      simp only [inPlaceOf, Transition.run, IntentDispatcher.step, if_pos hguard,
        Option.bind_some]
      split
      · rename_i hid
        exact hagree.closeIfActive hid
      · exact ⟨_, rfl, hagree⟩
  | emitEvent event =>
      refine ⟨t.emitEvent event, rfl, ?_⟩
      rw [show (Action.emitEvent event).drops = [] from rfl, List.append_nil]
      exact h.emitEvent event
  | updateIntent id auth update hrunning hopen =>
      rw [show (Action.updateIntent id auth update).drops = [] from rfl, List.append_nil]
      simp only [inPlaceOf]
      split
      · rename_i hid
        exact ⟨t, rfl, h.changesOnly hid (changesOnly_updateIntent s id auth update)⟩
      · rename_i hid
        refine ⟨t.updateIntent id auth update, ?_, h.updateIntent hid auth update⟩
        have hactive : t.result.isNone = true ∧ t.intentUpdateRx id = true := by
          rw [h.result, (h.sameFor id hid).intentUpdateRx]
          exact ⟨Option.isNone_iff_eq_none.mpr hrunning, hopen⟩
        simp only [Transition.run, IntentDispatcher.step, if_pos hactive, Option.bind_some]
  | updatesClosed id hrunning hopen =>
      exact hdrop id (changesOnly_updatesClosed s id)
  | dropReceiver id left hthere =>
      exact hdrop id ⟨rfl, rfl, rfl, fun _ _ => rfl, fun _ _ => rfl,
        fun id' hne => Function.update_of_ne hne _ _, fun _ _ => rfl⟩
  | closeInbox hrunning =>
      refine ⟨{ t with result := some (.ok ()) }, ?_, ?_⟩
      · have hnone : t.result.isNone = true := by
          rw [h.result]
          exact Option.isNone_iff_eq_none.mpr hrunning
        simp only [inPlaceOf, Transition.run, IntentDispatcher.step, if_pos hnone,
          Option.bind_some]
      · rw [show Action.closeInbox.drops = [] from rfl, List.append_nil]
        exact ⟨h.nextIntentId, h.completeAreas, rfl, h.receivers, fun id hid =>
          ⟨(h.sameFor id hid).intents, (h.sameFor id hid).intentUpdateRx,
            (h.sameFor id hid).receiver, (h.sameFor id hid).events⟩⟩

/-! ## Runs side by side -/

/-- A run without abandoned intents agrees with the one that closes what it
drops. -/
theorem Agree.run {actions : List Action} (h : Agree D s t)
    (hgood : Transition.AllowedAlong IntentDispatcher.step (fun s a => ¬ Abandoned s a) s actions)
    (hrun : Transition.run IntentDispatcher.step s actions = some s') :
    ∃ t', Transition.run IntentDispatcher.step t (closing D t actions) = some t' ∧
      Agree (D ++ actions.flatMap Action.drops) s' t' := by
  induction actions generalizing s t D with
  | nil =>
      obtain rfl := Option.some.inj hrun
      exact ⟨t, rfl, by rwa [List.flatMap_nil, List.append_nil]⟩
  | cons a rest ih =>
      obtain ⟨s'', hs'', hrest⟩ := Option.bind_eq_some_iff.mp hrun
      obtain ⟨hgood, hall⟩ := hgood
      rw [hs''] at hall
      obtain ⟨t'', ht'', hagree⟩ := h.step hgood hs''
      obtain ⟨t', ht', hlast⟩ := ih hagree hall hrest
      refine ⟨t', ?_, ?_⟩
      · rw [closing, ht'', Transition.run_append ht'']
        exact ht'
      · rwa [List.flatMap_cons, ← List.append_assoc]

/-- What `run` has returned stays. -/
theorem result_step {a : Action} {r : Except RunError Unit} (h : s.result = some r)
    (hstep : s.step a = some s') : s'.result = some r := by
  cases step_sound hstep with
  | submitIntent auth intent order hrunning horder => cases hrunning.symm.trans h
  | emitEvent event =>
      unfold emitEvent
      rw [h]
      exact h
  | updateIntent id auth update hrunning hopen => cases hrunning.symm.trans h
  | updatesClosed id hrunning hopen => cases hrunning.symm.trans h
  | dropReceiver id left hthere => exact h
  | closeInbox hrunning => cases hrunning.symm.trans h

theorem result_run {actions : List Action} {r : Except RunError Unit} (h : s.result = some r)
    (hrun : Transition.run step s actions = some s') : s'.result = some r :=
  (Transition.Reachable.of_run_all hrun).invariant (P := fun s => s.result = some r) h
    fun _ _ _ hs _ hstep => result_step hs hstep

/-- A session that did not fail because of a receiver has no abandoned
intent. -/
theorem not_abandoned_of_result {actions : List Action}
    (hrun : Transition.run step s actions = some s')
    (hresult : s'.result ≠ some (.error .channelReceiverDropped)) :
    Transition.AllowedAlong step (fun s a => ¬ Abandoned s a) s actions := by
  induction actions generalizing s with
  | nil => trivial
  | cons a rest ih =>
      obtain ⟨s'', hs'', hrest⟩ := Option.bind_eq_some_iff.mp hrun
      refine ⟨fun habandoned => ?_, ?_⟩
      · exact hresult (result_run (result_of_abandoned habandoned hs'') hrest)
      · rw [hs'']
        exact ih hrest

/-- Only an abandoned intent makes a session fail because of a receiver. -/
theorem result_step_ne {a : Action} (hgood : ¬ Abandoned s a) (hstep : s.step a = some s')
    (h : s.result ≠ some (.error .channelReceiverDropped)) :
    s'.result ≠ some (.error .channelReceiverDropped) := by
  cases step_sound hstep with
  | submitIntent auth intent order hrunning horder =>
      cases hresolve : auth.resolveInterests intent.interests with
      | none =>
          simp only [submitIntent, hresolve]
          simp
      | some interests =>
          rcases hrun : catchUp order (s.receivers s.nextIntentId)
              { info := newInfo intent interests } with ⟨e | ⟨⟩, left, d⟩
          · exact absurd ((catchUp_isError_iff hresolve).mp ⟨e, left, d, hrun⟩) hgood
          · rw [(submits_of_catchUp hresolve hrun).result]
            exact h
  | emitEvent event =>
      unfold emitEvent
      split
      · rw [yieldIfDropped_result]
        exact h
      · exact h
  | updateIntent id auth update hrunning hopen =>
      rw [(changesOnly_updateIntent s id auth update).result]
      exact h
  | updatesClosed id hrunning hopen =>
      rw [(changesOnly_updatesClosed s id).result]
      exact h
  | dropReceiver id left hthere =>
      exact h
  | closeInbox hrunning =>
      simp

/-- **Intents are isolated, exactly.** In a session in which clients drop their
handles at any moment, the session does not fail because of that, and every
other intent receives the same events as in the run in which the dropped ones
are closed instead, if and only if no submitted intent is abandoned: its
receiver takes all events about the areas that are complete already. -/
theorem intents_isolated_iff {actions : List Action} (hrun : run actions = some s) :
    (s.result ≠ some (.error .channelReceiverDropped) ∧
      ∃ t, run (closing [] {} actions) = some t ∧ t.result = s.result ∧
        ∀ id, id ∉ actions.flatMap Action.drops → eventsOf id t.log = eventsOf id s.log) ↔
    Transition.AllowedAlong step (fun s a => ¬ Abandoned s a) {} actions := by
  constructor
  · rintro ⟨hresult, -⟩
    exact not_abandoned_of_result hrun hresult
  · intro hgood
    obtain ⟨t, ht, hagree⟩ := Agree.start.run hgood hrun
    refine ⟨?_, t, ht, hagree.result, fun id hid => ?_⟩
    · exact (Transition.Reachable.of_run hrun hgood).invariant
        (P := fun s => s.result ≠ some (.error .channelReceiverDropped)) (by simp)
        fun _ _ _ hs ha hstep => result_step_ne ha hstep hs
    · exact (hagree.sameFor id (by simpa using hid)).events

end IntentDispatcher

end Isolation

namespace IntentDispatcher

section Samples

open IrohWillow.Sample

attribute [local instance] Sample.areaIntersection

/-- An intent for everything, when everything is reconciled already. -/
def Sample.submitAgain : Action :=
  .submitIntent Sample.auth ⟨.all, .reconcileOnce, true⟩ [(namespaceId, Sample.everything)]

/-- A client drops its handle while its intent is queued, and the session fails
for the other intent. -/
theorem queued_drop_ends_session :
    ¬ ∀ (_ : AreaIntersection) (actions : List Action) s, run actions = some s →
      s.result ≠ some (.error .channelReceiverDropped) ∧
        ∃ t, run (closing [] {} actions) = some t ∧ t.result = s.result ∧
          ∀ id, id ∉ actions.flatMap Action.drops → eventsOf id t.log = eventsOf id s.log := by
  intro h
  have hrun : ((run [Sample.submit .continuous, Sample.reconcile, .dropReceiver 1 0,
      Sample.submitAgain]).map fun s => s.result) =
      some (some (.error .channelReceiverDropped)) := by rfl
  obtain ⟨s, hs, hresult⟩ := Option.map_eq_some_iff.mp hrun
  exact (h _ _ s hs).1 hresult

/-- A client drops its receiver before everything is reconciled. -/
def Sample.dropBetween : List Action :=
  [Sample.submit .continuous, Sample.submit .continuous, .dropReceiver 0 0, Sample.reconcile]

/-- The other intent receives its events. -/
theorem intents_isolated_between : ∃ s, run Sample.dropBetween = some s ∧
    eventsOf 1 s.log = [.reconciled namespaceId Sample.everything, .reconciledAll] ∧
      s.result ≠ some (.error .channelReceiverDropped) ∧
        ∃ t, run (closing [] {} Sample.dropBetween) = some t ∧ t.result = s.result ∧
          ∀ id, id ∉ Sample.dropBetween.flatMap Action.drops →
            eventsOf id t.log = eventsOf id s.log := by
  have hrun : ((run Sample.dropBetween).map fun s => eventsOf 1 s.log) =
      some [.reconciled namespaceId Sample.everything, .reconciledAll] := by rfl
  obtain ⟨s, hs, hevents⟩ := Option.map_eq_some_iff.mp hrun
  refine ⟨s, hs, hevents, (intents_isolated_iff hs).mpr ?_⟩
  exact ⟨not_false, not_false, not_false, not_false, trivial⟩

end Samples

end IntentDispatcher

end IrohWillow.Intents
