import IrohWillow.Lib.Processes
import IrohWillow.Session.AoiAnnouncements
import IrohWillow.Session.Intents
import IrohWillow.Session.PaiFinder
import IrohWillow.Session.Reconciler

/-!
# The loops of a session

`run_session` of `session/run.rs` runs its parts as loops that send to the inboxes of each
other. Every inbox holds two messages, and a loop that sends to a full one waits without
looking at its own.

Here are the loops with an inbox: the dispatcher of the intents, the data sender, and the
finders and the reconciler. The loops without one only send, and nothing waits for them. The
`IntersectionFinder` is that of `session/aoi_finder.rs`; the other parts may put out whatever
they like. A loop that fails ends the session, so that runs are those in which none has failed.

Some waits are not for an inbox: for the peer to take a message or to bind the static token of
an entry that it has sent, for a client to take an event, for the payload of an entry. They are
over whenever the outside likes, if ever.

* `Deadlocked`: the intersection loop waits for a loop that waits for it;
* when the outside does its part, the session is stuck in no other way, and a deadlock is for
  ever: `session_deadlocks`.
-/

namespace IrohWillow

open Transition Processes

/-- `intents::Input`. -/
inductive Intents.Input where
  | emitEvent (event : Intents.EventKind)
  | submitIntent (intent : Intents.Intent)

/-- What the dispatcher of the intents does when it takes an input. -/
inductive Intents.LoopEffect where
  | output (output : Intents.Output)
  /-- It sends an event to `others + 1` clients at once, and waits until they have room. -/
  | event (others : Nat)

/-- What the reconciler does when it takes an input or a message. -/
inductive Reconciler.LoopEffect where
  | output (output : Reconciler.Output)
  /-- It sends a message to the peer. -/
  | message
  /-- It waits in `authorise_entry_eventually` for a static token that the peer has yet to bind,
  or for the payload of an entry. -/
  | wait

/-- The loops of `run_session` that have an inbox. -/
inductive Loop where
  | intents
  | data
  | intersection
  | pai
  | reconciler
  deriving DecidableEq, Repr

section Model

variable [PaiScheme]

/-- What the inboxes hold. -/
inductive LoopMessage where
  | intents (input : Intents.Input)
  | data (intersection : AoiIntersection)
  | intersection (input : IntersectionFinder.Input)
  | pai (input : PaiFinder.Input)
  | reconciler (intersection : AoiIntersection)

namespace Loop

/-- A message to the inbox of a loop, which is sent alone. -/
def post (loop : Loop) (message : LoopMessage) : Group Loop LoopMessage :=
  .single (.inside loop message)

/-- A message to the peer. -/
def toPeer : Group Loop LoopMessage := .single .outside

/-- What `count + 1` others outside of the loops have to do. -/
def awaited (count : Nat) : Group Loop LoopMessage :=
  ⟨List.replicate (count + 1) .outside, by simp⟩

/-- `intents_fut`; `AllIntentsDropped` cancels the token of the session. -/
def onIntentsOutput : Intents.Output → List (Group Loop LoopMessage)
  | .submitInterests interests => [post .intersection (.intersection (.addInterests interests))]
  | .allIntentsDropped => []

/-- `intents_fut`, and the events that the dispatcher sends itself. -/
def onIntentsEffect : Intents.LoopEffect → List (Group Loop LoopMessage)
  | .output output => onIntentsOutput output
  | .event others => [awaited others]

/-- `intersection_loop`. -/
def onIntersectionOutput (live : Bool) : IntersectionFinder.Output → List (Group Loop LoopMessage)
  | .sendMessage _ _ => [toPeer]
  | .submitAuthorisation authorisation => [post .pai (.pai (.submitAuthorisation authorisation))]
  | .aoiIntersection i =>
      [post .reconciler (.reconciler i),
        post .intents
          (.intents (.emitEvent (.interestIntersection i.namespaceId i.intersection)))] ++
        if live then [post .data (.data i)] else []
  | .signAndSendCapability _ _ => [toPeer]

/-- `pai_loop`. -/
def onPaiOutput : PaiFinder.Output → List (Group Loop LoopMessage)
  | .sendMessage _ => [toPeer]
  | .requestSubspaceCapability _ => [toPeer]
  | .newIntersection i =>
      let event := .capabilityIntersection i.authorisation.namespaceId
        i.authorisation.readCap.grantedArea
      [⟨[.inside .intersection (.intersection (.paiIntersection i.authorisation i.handle)),
        .inside .intents (.intents (.emitEvent event))], by simp⟩]
  | .signAndSendSubspaceCap _ _ => [toPeer]

/-- `reconciler_loop`; `ReconciledAll` ends it or does nothing. -/
def onReconcilerOutput : Reconciler.Output → List (Group Loop LoopMessage)
  | .reconciledArea namespaceId area =>
      [post .intents (.intents (.emitEvent (.reconciled namespaceId area)))]
  | .reconciledAll => []

/-- `reconciler_loop`, and what the reconciler sends or waits for itself. -/
def onReconcilerEffect : Reconciler.LoopEffect → List (Group Loop LoopMessage)
  | .output output => onReconcilerOutput output
  | .message => [toPeer]
  | .wait => [awaited 0]

/-- The capacity of `channel` and `cancelable_channel`. -/
def capacity (_ : Loop) : Nat := 2

/-- A loop sends only to these. -/
def Sends : Loop → Loop → Prop
  | .intents, q => q = .intersection
  | .data, _ => False
  | .intersection, q => q = .reconciler ∨ q = .intents ∨ q = .data ∨ q = .pai
  | .pai, q => q = .intersection ∨ q = .intents
  | .reconciler, q => q = .intents

/-- `Sends`, of a message. -/
def Route (p : Loop) : Send Loop LoopMessage → Prop
  | .inside q _ => Sends p q
  | .outside => True

end Loop

/-- The inboxes and loops of a session, and its intersection finder; `live` says whether there
is a data sender. -/
structure SessionLoops where
  network : Network Loop LoopMessage := {}
  finder : IntersectionFinder
  live : Bool

namespace SessionLoops

open Loop

/-- What may happen. Where a loop takes a message, it does what is given. -/
inductive Action where
  | intents (effects : List Intents.LoopEffect)
  /-- An initial intent is submitted, or an update of an intent arrives. -/
  | intentUpdate (effects : List Intents.LoopEffect)
  | intersection
  | pai (outputs : List PaiFinder.Output)
  /-- A message on the intersection channel. -/
  | paiMessage (outputs : List PaiFinder.Output)
  | reconciler (effects : List Reconciler.LoopEffect)
  /-- A message on the reconciliation channel. -/
  | reconciliationMessage (effects : List Reconciler.LoopEffect)
  | data
  /-- Entries from the subscriptions of the data sender. -/
  | dataEntries (messages : Nat)
  /-- A loop sends the message at `i` of those that it sends concurrently, or the outside has
  done what it waits for there. -/
  | put (loop : Loop) (i : Nat)
  /-- `update_loop`. -/
  | submitIntent (intent : Intents.Intent)
  /-- `aoi_recv_loop`. -/
  | receivedAoi (namespaceId : NamespaceId) (aoi : AreaOfInterest)
  /-- `control_loop` and `caps_recv_loop`. -/
  | paiInput (input : PaiFinder.Input)
  /-- An inbox is closed, after the cancellation of the session. -/
  | quit (loop : Loop)

/-! ## Routes -/

/-- What is put out goes along the routes. -/
theorem route_of_mem {α : Type} {p : Loop} {outputs : List α}
    {f : α → List (Group Loop LoopMessage)}
    (hf : ∀ o, ∀ group ∈ f o, ∀ send ∈ group.1, Route p send) :
    ∀ group ∈ outputs.flatMap f, ∀ send ∈ group.1, Route p send := by
  intro group hgroup
  obtain ⟨o, -, ho⟩ := List.mem_flatMap.mp hgroup
  exact hf o group ho

/-- Whoever waits for the outside sends nothing to another loop. -/
theorem route_awaited (p : Loop) (count : Nat) : ∀ send ∈ (awaited count).1, Route p send := by
  intro send hsend
  obtain ⟨-, rfl⟩ := List.mem_replicate.mp hsend
  trivial

theorem route_intents (o : Intents.LoopEffect) :
    ∀ group ∈ onIntentsEffect o, ∀ send ∈ group.1, Route .intents send := by
  cases o with
  | output output =>
      cases output <;> simp [onIntentsEffect, onIntentsOutput, post, Group.single, Route, Sends]
  | event others =>
      intro group hgroup
      obtain rfl := List.mem_singleton.mp hgroup
      exact route_awaited .intents others

theorem route_intersection (live : Bool) (o : IntersectionFinder.Output) :
    ∀ group ∈ onIntersectionOutput live o, ∀ send ∈ group.1, Route .intersection send := by
  cases o <;> cases live <;>
    simp [onIntersectionOutput, post, toPeer, Group.single, Route, Sends]

theorem route_pai (o : PaiFinder.Output) :
    ∀ group ∈ onPaiOutput o, ∀ send ∈ group.1, Route .pai send := by
  cases o <;> simp [onPaiOutput, toPeer, Group.single, Route, Sends]

theorem route_reconciler (o : Reconciler.LoopEffect) :
    ∀ group ∈ onReconcilerEffect o, ∀ send ∈ group.1, Route .reconciler send := by
  cases o with
  | output output =>
      cases output <;>
        simp [onReconcilerEffect, onReconcilerOutput, post, Group.single, Route, Sends]
  | message => simp [onReconcilerEffect, toPeer, Group.single, Route]
  | wait =>
      intro group hgroup
      obtain rfl := List.mem_singleton.mp hgroup
      exact route_awaited .reconciler 0

theorem route_data (messages : Nat) :
    ∀ group ∈ List.replicate messages toPeer, ∀ send ∈ group.1, Route .data send := by
  intro group hgroup send hsend
  obtain ⟨-, rfl⟩ := List.mem_replicate.mp hgroup
  obtain rfl := List.mem_singleton.mp hsend
  trivial

/-! ## Steps -/

variable [WillowDataModel]

/-- A step of the loops that does not concern the finder. -/
def move (s : SessionLoops) (a : Processes.Action Loop LoopMessage) : Option SessionLoops :=
  (s.network.step capacity a).map fun network => { s with network }

/-- `IntersectionFinder::run` takes an input, and `intersection_loop` its outputs. -/
def takeIntersection (s : SessionLoops) : Option SessionLoops :=
  match s.network.inbox .intersection with
  | .intersection input :: _ =>
      match s.finder.onInput input with
      | .ok finder =>
          let outputs := finder.outputs.drop s.finder.outputs.length
          (s.network.step capacity
            (.take .intersection (outputs.flatMap (onIntersectionOutput s.live)))).map
              fun network => { s with network, finder }
      | .error _ => none
  | _ => none

/-- One step. A loop drops what is in its inbox only when the reconciler is done. -/
def step (s : SessionLoops) : Action → Option SessionLoops
  | .intents effects => s.move (.take .intents (effects.flatMap onIntentsEffect))
  | .intentUpdate effects => s.move (.external .intents (effects.flatMap onIntentsEffect))
  | .intersection => s.takeIntersection
  | .pai outputs => s.move (.take .pai (outputs.flatMap onPaiOutput))
  | .paiMessage outputs => s.move (.external .pai (outputs.flatMap onPaiOutput))
  | .reconciler effects => s.move (.take .reconciler (effects.flatMap onReconcilerEffect))
  | .reconciliationMessage effects =>
      s.move (.external .reconciler (effects.flatMap onReconcilerEffect))
  | .data => s.move (.take .data [])
  | .dataEntries messages => s.move (.external .data (List.replicate messages toPeer))
  | .put loop i => s.move (.put loop i)
  | .submitIntent intent => s.move (.inject .intents (.intents (.submitIntent intent)))
  | .receivedAoi namespaceId aoi =>
      s.move (.inject .intersection (.intersection (.receivedValidatedAoi namespaceId aoi)))
  | .paiInput input => s.move (.inject .pai (.pai input))
  | .quit loop =>
      if (s.network.inbox loop).isEmpty || decide (loop = .reconciler) then s.move (.quit loop)
      else none

/-- A session before its first step. -/
def start (caps : Capabilities) (live : Bool) : SessionLoops := { finder := { caps }, live }

/-- One loop waits for the inbox of another. -/
def Waits (s : SessionLoops) (p q : Loop) : Prop := s.network.WaitsFor capacity p q

/-- The intersection loop waits for a loop that waits for it, or for one that does. -/
def Deadlocked (s : SessionLoops) : Prop :=
  (s.Waits .intersection .intents ∧ s.Waits .intents .intersection) ∨
  (s.Waits .intersection .pai ∧ s.Waits .pai .intersection) ∨
  (s.Waits .intersection .pai ∧ s.Waits .pai .intents ∧ s.Waits .intents .intersection) ∨
  (s.Waits .intersection .reconciler ∧ s.Waits .reconciler .intents ∧
    s.Waits .intents .intersection)

/-! ## Steps of the loops are steps of processes -/

variable {s s' : SessionLoops}

/-- What a step of a session is for its processes; the finder is as it was, or has taken an
input. -/
theorem step_sound {a : Action} (hstep : s.step a = some s') :
    ∃ b : Processes.Action Loop LoopMessage, s.network.step capacity b = some s'.network ∧
      b.Routed Route ∧ (s'.finder = s.finder ∨ s.network.pending .intersection = []) := by
  have hmove : ∀ {b : Processes.Action Loop LoopMessage}, s.move b = some s' → b.Routed Route →
      ∃ b : Processes.Action Loop LoopMessage, s.network.step capacity b = some s'.network ∧
        b.Routed Route ∧ (s'.finder = s.finder ∨ s.network.pending .intersection = []) := by
    intro b h hrouted
    obtain ⟨network, hnetwork, rfl⟩ := Option.map_eq_some_iff.mp h
    exact ⟨b, hnetwork, hrouted, .inl rfl⟩
  cases a with
  | intents effects => exact hmove hstep (route_of_mem route_intents)
  | intentUpdate effects => exact hmove hstep (route_of_mem route_intents)
  | intersection =>
      simp only [step, takeIntersection] at hstep
      split at hstep
      · split at hstep
        · obtain ⟨network, hnetwork, rfl⟩ := Option.map_eq_some_iff.mp hstep
          refine ⟨_, hnetwork, route_of_mem (route_intersection s.live), .inr ?_⟩
          by_contra hbusy
          exact Network.take_ne_some hbusy hnetwork
        · cases hstep
      · cases hstep
  | pai outputs => exact hmove hstep (route_of_mem route_pai)
  | paiMessage outputs => exact hmove hstep (route_of_mem route_pai)
  | reconciler effects => exact hmove hstep (route_of_mem route_reconciler)
  | reconciliationMessage effects => exact hmove hstep (route_of_mem route_reconciler)
  | data => exact hmove hstep fun _ h => nomatch h
  | dataEntries messages => exact hmove hstep (route_data messages)
  | put loop i => exact hmove hstep trivial
  | submitIntent intent => exact hmove hstep trivial
  | receivedAoi namespaceId aoi => exact hmove hstep trivial
  | paiInput input => exact hmove hstep trivial
  | quit loop =>
      simp only [step] at hstep
      split at hstep
      · exact hmove hstep trivial
      · cases hstep

/-- A run of a session is a run of its processes, which send along their routes. -/
theorem network_of_reachable (hs : Reachable step (fun _ _ => True) s s') :
    Reachable (Network.step capacity) (fun _ b => b.Routed Route) s.network s'.network := by
  induction hs with
  | refl => exact .refl
  | tail _ _ hstep ih =>
      obtain ⟨b, hb, hrouted, -⟩ := step_sound hstep
      exact .tail ih hrouted hb

omit [WillowDataModel] in
/-- No loop has sent anything yet. -/
theorem routed_start (caps : Capabilities) (live : Bool) :
    (start caps live).network.Routed Route := by
  intro p group hgroup
  cases hgroup

/-! ## Deadlocks -/

omit [WillowDataModel] in
/-- Who waits for whom follows the routes. -/
theorem Waits.sends (hrouted : s.network.Routed Route) {p q : Loop} (h : s.Waits p q) :
    Sends p q := by
  obtain ⟨m, hm⟩ := hrouted.of_waitsFor h
  exact hm

omit [WillowDataModel] in
/-- In a knot the intersection loop waits for a loop that waits for it. -/
theorem deadlocked_of_knot (hrouted : s.network.Routed Route) {D : Set Loop}
    (hknot : s.network.Knot capacity D) (hne : D.Nonempty) : s.Deadlocked := by
  have hsends : ∀ {p q}, s.network.WaitsFor capacity p q → Sends p q := Waits.sends hrouted
  have hdata : Loop.data ∉ D := by
    intro hmem
    obtain ⟨q, -, hwaits⟩ := hknot .data hmem
    exact hsends hwaits
  have hintents : Loop.intents ∈ D → s.Waits .intents .intersection ∧ Loop.intersection ∈ D := by
    intro hmem
    obtain ⟨q, hq, hwaits⟩ := hknot .intents hmem
    obtain rfl : q = .intersection := hsends hwaits
    exact ⟨hwaits, hq⟩
  have hreconciler : Loop.reconciler ∈ D → s.Waits .reconciler .intents ∧ Loop.intents ∈ D := by
    intro hmem
    obtain ⟨q, hq, hwaits⟩ := hknot .reconciler hmem
    obtain rfl : q = .intents := hsends hwaits
    exact ⟨hwaits, hq⟩
  -- every knot has the intersection loop
  have hmem : Loop.intersection ∈ D := by
    obtain ⟨p, hp⟩ := hne
    cases p with
    | intents => exact (hintents hp).2
    | data => exact absurd hp hdata
    | intersection => exact hp
    | pai =>
        obtain ⟨q, hq, hwaits⟩ := hknot .pai hp
        rcases hsends hwaits with rfl | rfl
        · exact hq
        · exact (hintents hq).2
    | reconciler => exact (hintents (hreconciler hp).2).2
  obtain ⟨q, hq, hwaits⟩ := hknot .intersection hmem
  rcases hsends hwaits with rfl | rfl | rfl | rfl
  · exact .inr (.inr (.inr ⟨hwaits, (hreconciler hq).1, (hintents (hreconciler hq).2).1⟩))
  · exact .inl ⟨hwaits, (hintents hq).1⟩
  · exact absurd hq hdata
  · obtain ⟨q', hq', hwaits'⟩ := hknot .pai hq
    rcases hsends hwaits' with rfl | rfl
    · exact .inr (.inl ⟨hwaits, hwaits'⟩)
    · exact .inr (.inr (.inl ⟨hwaits, hwaits', (hintents hq').1⟩))

omit [WillowDataModel] in
/-- The loops of a deadlock are a knot. -/
theorem Deadlocked.knot (h : s.Deadlocked) :
    ∃ D : Set Loop, s.network.Knot capacity D ∧ Loop.intersection ∈ D := by
  rcases h with ⟨h₁, h₂⟩ | ⟨h₁, h₂⟩ | ⟨h₁, h₂, h₃⟩ | ⟨h₁, h₂, h₃⟩
  · refine ⟨{.intersection, .intents}, ?_, by simp⟩
    rintro p (rfl | rfl)
    · exact ⟨_, by simp, h₁⟩
    · exact ⟨_, by simp, h₂⟩
  · refine ⟨{.intersection, .pai}, ?_, by simp⟩
    rintro p (rfl | rfl)
    · exact ⟨_, by simp, h₁⟩
    · exact ⟨_, by simp, h₂⟩
  · refine ⟨{.intersection, .pai, .intents}, ?_, by simp⟩
    rintro p (rfl | rfl | rfl)
    · exact ⟨_, by simp, h₁⟩
    · exact ⟨_, by simp, h₂⟩
    · exact ⟨_, by simp, h₃⟩
  · refine ⟨{.intersection, .reconciler, .intents}, ?_, by simp⟩
    rintro p (rfl | rfl | rfl)
    · exact ⟨_, by simp, h₁⟩
    · exact ⟨_, by simp, h₂⟩
    · exact ⟨_, by simp, h₃⟩

omit [WillowDataModel] in
/-- Nobody has closed the inbox of the intersection loop. -/
theorem Deadlocked.closed_eq (h : s.Deadlocked) : s.network.closed .intersection = false := by
  rcases h with ⟨-, h⟩ | ⟨-, h⟩ | ⟨-, -, h⟩ | ⟨-, -, h⟩ <;> exact h.closed_eq

/-- A deadlock is for ever. -/
theorem Deadlocked.of_reachable (hrouted : s.network.Routed Route) (h : s.Deadlocked)
    (hs : Reachable step (fun _ _ => True) s s') :
    s'.Deadlocked ∧ s'.finder = s.finder ∧
      s.network.inbox .intersection <+: s'.network.inbox .intersection := by
  obtain ⟨D, hknot, hmem⟩ := h.knot
  have hrun : ∀ {t}, Reachable SessionLoops.step (fun _ _ => True) s t →
      t.network.Knot capacity D ∧ ∀ p ∈ D, s.network.inbox p <+: t.network.inbox p :=
    fun ht => hknot.of_reachable (network_of_reachable ht)
  refine ⟨?_, ?_, (hrun hs).2 _ hmem⟩
  · have hrouted' := hrouted.of_reachable (network_of_reachable hs)
    exact deadlocked_of_knot hrouted' (hrun hs).1 ⟨_, hmem⟩
  · induction hs with
    | refl => rfl
    | tail ht _ hstep ih =>
        obtain ⟨q, -, hwaits⟩ := (hrun ht).1 .intersection hmem
        obtain ⟨b, -, -, hfinder⟩ := step_sound hstep
        exact (hfinder.resolve_right hwaits.pending_ne).trans ih

/-- **The deadlocks of a session.** In every run of the loops: when something is to be done and
nothing can move, though the outside does all that a loop waits for, the intersection loop waits
for a full inbox of a loop that waits for its own full inbox, directly or for one that does. And
when that is so, it is so for ever, whatever else happens, also a cancellation: the intersection
finder takes no further input, and the session does not end unless some loop fails. -/
theorem session_deadlocks {caps : Capabilities} {live : Bool}
    (hs : Reachable step (fun _ _ => True) (start caps live) s) :
    (s.network.Stuck capacity → s.Deadlocked) ∧
    (s.Deadlocked → ∀ s', Reachable step (fun _ _ => True) s s' →
      s'.Deadlocked ∧ s'.finder = s.finder ∧
        s.network.inbox .intersection <+: s'.network.inbox .intersection ∧
        s'.network.closed .intersection = false) := by
  have hrouted := (routed_start caps live).of_reachable (network_of_reachable hs)
  refine ⟨fun hstuck => ?_, fun hdead s' hs' => ?_⟩
  · exact deadlocked_of_knot hrouted (hstuck.knot fun _ => Nat.two_pos) hstuck.waiting
  · obtain ⟨hdead', hfinder, hinbox⟩ := hdead.of_reachable hrouted hs'
    exact ⟨hdead', hfinder, hinbox, hdead'.closed_eq⟩

end SessionLoops

end Model

section Samples

open IrohWillow.Sample

namespace SessionLoops

/-- Areas of interest with equal areas intersect, with the smaller limits; zero is no limit. -/
@[reducible] def Sample.limitedAreas : WillowDataModel where
  greaterButNotPrefixed _ := none
  intersection a b :=
    let limit := fun (x y : U64) => if x = 0 then y else if y = 0 then x else min x y
    if a.area = b.area then
      some ⟨a.area, limit a.maxCount b.maxCount, limit a.maxSize b.maxSize⟩
    else none

attribute [local instance] countingScheme Sample.limitedAreas

/-- The full area with a limit. -/
def Sample.areaOfInterest (maxCount : U64) : AreaOfInterest := ⟨.full, maxCount, 0⟩

/-- We have three areas of interest, the peer has one that meets all of them and two more, and
a further intent is submitted before these are handled. -/
def Sample.actions : List Action :=
  [.intentUpdate [.output (.submitInterests [(Announcer.Sample.authorisation,
      [Sample.areaOfInterest 1, Sample.areaOfInterest 2, Sample.areaOfInterest 3])])],
    .put .intents 0, .intersection, .put .intersection 0, .pai [],
    .paiMessage [.newIntersection ⟨Announcer.Sample.authorisation, 0⟩], .put .pai 0, .put .pai 0,
    .intents [], .intersection, .put .intersection 0, .put .intersection 0, .put .intersection 0,
    .put .intersection 0, .receivedAoi namespaceId (Sample.areaOfInterest 0), .intersection,
    .receivedAoi namespaceId (Sample.areaOfInterest 4),
    .receivedAoi namespaceId (Sample.areaOfInterest 5), .submitIntent ⟨.all, .reconcileOnce, true⟩,
    .intents [.output (.submitInterests
      [(Announcer.Sample.authorisation, [Sample.areaOfInterest 6])])],
    .put .intersection 0, .put .intersection 0, .put .intersection 0, .put .intersection 0,
    .reconciler [], .put .intersection 0]

def Sample.first : SessionLoops := start (.new (.ofByte 3) (.ofByte 7)) false

/-- The loops after these actions. -/
def Sample.last : SessionLoops := (run step Sample.first Sample.actions).getD Sample.first

set_option maxRecDepth 4000 in
/-- The intersection loop and the intents wait for each other for ever. -/
theorem session_deadlocks_new_intent :
    Sample.last.Deadlocked ∧ ∀ s', Reachable step (fun _ _ => True) Sample.last s' →
      s'.finder = Sample.last.finder ∧ s'.network.closed .intersection = false := by
  have hrun : run step Sample.first Sample.actions = some Sample.last := by rfl
  have hdead : Sample.last.Deadlocked := by
    refine .inl ⟨⟨_, _, _, rfl, List.mem_cons_self, ?_⟩, ⟨_, _, _, rfl, List.mem_cons_self, ?_⟩⟩
    · decide
    · decide
  refine ⟨hdead, fun s' hs' => ?_⟩
  obtain ⟨-, hfinder, -, hclosed⟩ := (session_deadlocks (.of_run_all hrun)).2 hdead s' hs'
  exact ⟨hfinder, hclosed⟩

end SessionLoops

end Samples

end IrohWillow
