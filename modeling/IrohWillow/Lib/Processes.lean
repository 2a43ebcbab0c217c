import IrohWillow.Lib.Transition

/-!
# Processes with bounded inboxes

A process takes the messages of its inbox one after the other. Each makes it send messages
to the inboxes of others, or out of the network, in an order that is fixed when the message is
taken; those of one *group* are sent concurrently. An inbox holds a bounded number of messages,
and a process that sends to a full inbox waits, without looking at its own.

* `Knot` says of a set of processes that each of them waits for one of the set. It is for ever:
  `Knot.of_reachable`, whatever else happens in the network;
* `Stuck` networks, in which a process waits and nothing can move, have one: `Stuck.knot`.
-/

namespace Processes

open Transition

variable {P M : Type*}

/-- What a process sends. -/
inductive Send (P M : Type*) where
  | inside (q : P) (m : M)
  /-- To somewhere outside, which takes it when it likes. -/
  | outside
  deriving DecidableEq

/-- Messages that are sent concurrently. -/
abbrev Group (P M : Type*) := { sends : List (Send P M) // sends ≠ [] }

/-- A message that is sent alone. -/
def Group.single (send : Send P M) : Group P M := ⟨[send], by simp⟩

/-- The inboxes of the processes, which of them are closed, and what each process has still to
send. -/
structure Network (P M : Type*) where
  inbox : P → List M := fun _ => []
  pending : P → List (Group P M) := fun _ => []
  closed : P → Bool := fun _ => false

/-- What may happen. -/
inductive Action (P M : Type*) where
  /-- A process takes the first message of its inbox. -/
  | take (p : P) (groups : List (Group P M))
  /-- A process takes a message from elsewhere. -/
  | external (p : P) (groups : List (Group P M))
  /-- A process sends one message of its first group. -/
  | put (p : P) (i : Nat)
  /-- A message comes from outside. -/
  | inject (q : P) (m : M)
  /-- A process closes its inbox, and drops what is in it. -/
  | quit (p : P)

/-- All that the action makes a process send satisfies `R`. -/
def Action.Routed (R : P → Send P M → Prop) : Action P M → Prop
  | .take p groups => ∀ group ∈ groups, ∀ send ∈ group.1, R p send
  | .external p groups => ∀ group ∈ groups, ∀ send ∈ group.1, R p send
  | _ => True

namespace Network

variable [DecidableEq P] (capacity : P → Nat)

/-- Messages to the inbox have to wait; those to a closed one are dropped. -/
def Full (s : Network P M) (q : P) : Prop := s.closed q = false ∧ capacity q ≤ (s.inbox q).length

instance (s : Network P M) (q : P) : Decidable (s.Full capacity q) :=
  inferInstanceAs (Decidable (_ ∧ _))

/-- The message can be sent now. -/
def CanSend (s : Network P M) : Send P M → Prop
  | .inside q _ => ¬ s.Full capacity q
  | .outside => True

instance (s : Network P M) : (send : Send P M) → Decidable (s.CanSend capacity send)
  | .inside q _ => inferInstanceAs (Decidable (¬ s.Full capacity q))
  | .outside => inferInstanceAs (Decidable True)

/-- A message arrives. -/
def deliver (s : Network P M) : Send P M → Network P M
  | .inside q m =>
      if s.closed q then s
      else { s with inbox := Function.update s.inbox q (s.inbox q ++ [m]) }
  | .outside => s

/-- What is left to send after the message at `i` of the first group. -/
def remaining (group : Group P M) (rest : List (Group P M)) (i : Nat) : List (Group P M) :=
  if h : group.1.eraseIdx i = [] then rest else ⟨group.1.eraseIdx i, h⟩ :: rest

/-- One step. -/
def step (s : Network P M) : Action P M → Option (Network P M)
  | .take p groups =>
      match s.inbox p with
      | [] => none
      | _ :: rest =>
          if s.pending p = [] then
            some { s with
              inbox := Function.update s.inbox p rest
              pending := Function.update s.pending p groups }
          else none
  | .external p groups =>
      if s.pending p = [] then some { s with pending := Function.update s.pending p groups }
      else none
  | .put p i =>
      match s.pending p with
      | [] => none
      | group :: rest =>
          match group.1[i]? with
          | none => none
          | some send =>
              if s.CanSend capacity send then
                some { s.deliver send with
                  pending := Function.update s.pending p (remaining group rest i) }
              else none
  | .inject q m => if s.Full capacity q then none else some (s.deliver (.inside q m))
  | .quit p =>
      if s.pending p = [] then
        some { s with
          inbox := Function.update s.inbox p []
          closed := Function.update s.closed p true }
      else none

variable {capacity}

/-- The first group of `p` has a message for the full inbox of `q`. -/
def WaitsFor (capacity : P → Nat) (s : Network P M) (p q : P) : Prop :=
  ∃ group rest m, s.pending p = group :: rest ∧ .inside q m ∈ group.1 ∧ s.Full capacity q

/-- Each of the processes waits for one of them. -/
def Knot (capacity : P → Nat) (s : Network P M) (D : Set P) : Prop :=
  ∀ p ∈ D, ∃ q ∈ D, s.WaitsFor capacity p q

/-- Some process has something to send, and nothing can move inside. -/
structure Stuck (capacity : P → Nat) (s : Network P M) : Prop where
  take : ∀ p groups, s.step capacity (.take p groups) = none
  put : ∀ p i, s.step capacity (.put p i) = none
  waiting : ∃ p, s.pending p ≠ []

variable {s s' : Network P M} {D : Set P} {p q : P}

/-! ## What a step leaves as it is -/

omit [DecidableEq P] in
theorem Full.of_prefix (h : s.Full capacity q) (hclosed : s'.closed q = s.closed q)
    (hinbox : s.inbox q <+: s'.inbox q) : s'.Full capacity q :=
  ⟨hclosed.trans h.1, h.2.trans hinbox.length_le⟩

theorem closed_deliver (send : Send P M) : (s.deliver send).closed = s.closed := by
  cases send with
  | inside q m =>
      simp only [deliver]
      split <;> rfl
  | outside => rfl

theorem pending_deliver (send : Send P M) : (s.deliver send).pending = s.pending := by
  cases send with
  | inside q m =>
      simp only [deliver]
      split <;> rfl
  | outside => rfl

theorem inbox_deliver (send : Send P M) (p : P) : s.inbox p <+: (s.deliver send).inbox p := by
  cases send with
  | outside => exact List.prefix_refl _
  | inside q m =>
      simp only [deliver]
      split
      · exact List.prefix_refl _
      · show s.inbox p <+: Function.update s.inbox q _ p
        by_cases hp : p = q
        · rw [hp, Function.update_self]
          exact List.prefix_append _ _
        · rw [Function.update_of_ne hp]

/-- What a step does to the sends of a process: nothing, it begins with those of a new message,
or it goes on by one that was possible. -/
theorem pending_of_step {a : Action P M} (hstep : s.step capacity a = some s') (p : P) :
    s'.pending p = s.pending p ∨
    (∃ groups, s.pending p = [] ∧ s'.pending p = groups ∧
      (a = .take p groups ∨ a = .external p groups)) ∨
    ∃ group rest i send, s.pending p = group :: rest ∧ group.1[i]? = some send ∧
      s.CanSend capacity send ∧ s'.pending p = remaining group rest i := by
  cases a with
  | take p' groups =>
      simp only [step] at hstep
      split at hstep
      · cases hstep
      · split at hstep
        · rename_i hidle
          obtain rfl := Option.some.inj hstep
          by_cases hp : p = p'
          · subst hp
            exact .inr (.inl ⟨groups, hidle, Function.update_self _ _ _, .inl rfl⟩)
          · exact .inl (Function.update_of_ne hp _ _)
        · cases hstep
  | external p' groups =>
      simp only [step] at hstep
      split at hstep
      · rename_i hidle
        obtain rfl := Option.some.inj hstep
        by_cases hp : p = p'
        · subst hp
          exact .inr (.inl ⟨groups, hidle, Function.update_self _ _ _, .inr rfl⟩)
        · exact .inl (Function.update_of_ne hp _ _)
      · cases hstep
  | put p' i =>
      simp only [step] at hstep
      split at hstep
      · cases hstep
      · rename_i group rest hpending
        split at hstep
        · cases hstep
        · rename_i send hsend
          split at hstep
          · rename_i hcan
            obtain rfl := Option.some.inj hstep
            by_cases hp : p = p'
            · subst hp
              exact .inr (.inr ⟨group, rest, i, send, hpending, hsend, hcan,
                Function.update_self _ _ _⟩)
            · exact .inl (Function.update_of_ne hp _ _)
          · cases hstep
  | inject q m =>
      simp only [step] at hstep
      split at hstep
      · cases hstep
      · obtain rfl := Option.some.inj hstep
        exact .inl (congrFun (pending_deliver _) p)
  | quit p' =>
      simp only [step] at hstep
      split at hstep
      · obtain rfl := Option.some.inj hstep
        exact .inl rfl
      · cases hstep

/-- A process that has something to send keeps its inbox open, and takes nothing from it. -/
theorem inbox_of_step {a : Action P M} (hstep : s.step capacity a = some s')
    (hp : s.pending p ≠ []) : s.inbox p <+: s'.inbox p ∧ s'.closed p = s.closed p := by
  have hne : ∀ p', s.pending p' = [] → p ≠ p' := by
    rintro p' hidle rfl
    exact hp hidle
  cases a with
  | take p' groups =>
      simp only [step] at hstep
      split at hstep
      · cases hstep
      · split at hstep
        · rename_i hidle
          obtain rfl := Option.some.inj hstep
          refine ⟨?_, rfl⟩
          show s.inbox p <+: Function.update s.inbox p' _ p
          rw [Function.update_of_ne (hne p' hidle)]
        · cases hstep
  | external p' groups =>
      simp only [step] at hstep
      split at hstep
      · obtain rfl := Option.some.inj hstep
        exact ⟨List.prefix_refl _, rfl⟩
      · cases hstep
  | put p' i =>
      simp only [step] at hstep
      split at hstep
      · cases hstep
      · split at hstep
        · cases hstep
        · rename_i send hsend
          split at hstep
          · obtain rfl := Option.some.inj hstep
            exact ⟨inbox_deliver send p, congrFun (closed_deliver send) p⟩
          · cases hstep
  | inject q m =>
      simp only [step] at hstep
      split at hstep
      · cases hstep
      · obtain rfl := Option.some.inj hstep
        exact ⟨inbox_deliver _ p, congrFun (closed_deliver _) p⟩
  | quit p' =>
      simp only [step] at hstep
      split at hstep
      · rename_i hidle
        obtain rfl := Option.some.inj hstep
        refine ⟨?_, Function.update_of_ne (hne p' hidle) _ _⟩
        show s.inbox p <+: Function.update s.inbox p' _ p
        rw [Function.update_of_ne (hne p' hidle)]
      · cases hstep

/-- A process takes nothing while it has something to send. -/
theorem take_ne_some (hp : s.pending p ≠ []) {groups : List (Group P M)} :
    s.step capacity (.take p groups) ≠ some s' := by
  unfold step
  dsimp only
  split
  · exact fun h => nomatch h
  · rw [if_neg hp]
    exact fun h => nomatch h

/-! ## Routes -/

/-- All that is still to be sent satisfies `R`. -/
def Routed (R : P → Send P M → Prop) (s : Network P M) : Prop :=
  ∀ p, ∀ group ∈ s.pending p, ∀ send ∈ group.1, R p send

omit [DecidableEq P] in
theorem mem_remaining {group g : Group P M} {rest : List (Group P M)} {i : Nat}
    (hg : g ∈ remaining group rest i) : g ∈ rest ∨ g.1 ⊆ group.1 := by
  unfold remaining at hg
  split at hg
  · exact .inl hg
  · rcases List.mem_cons.mp hg with rfl | hg
    · exact .inr fun _ h => List.eraseIdx_subset h
    · exact .inl hg

/-- Processes send only what they were made to send. -/
theorem Routed.step {R : P → Send P M → Prop} (h : s.Routed R) {a : Action P M} (ha : a.Routed R)
    (hstep : s.step capacity a = some s') : s'.Routed R := by
  intro p group hgroup send hsend
  rcases pending_of_step hstep p with
    hsame | ⟨groups, -, hnew, rfl | rfl⟩ | ⟨group', rest, i, _, hpending, -, -, hleft⟩
  · rw [hsame] at hgroup
    exact h p group hgroup send hsend
  · rw [hnew] at hgroup
    exact ha group hgroup send hsend
  · rw [hnew] at hgroup
    exact ha group hgroup send hsend
  · rw [hleft] at hgroup
    have hold := h p
    rw [hpending] at hold
    rcases mem_remaining hgroup with hrest | hsub
    · exact hold group (List.mem_cons_of_mem _ hrest) send hsend
    · exact hold group' List.mem_cons_self send (hsub hsend)

theorem Routed.of_reachable {R : P → Send P M → Prop} (h : s.Routed R)
    (hs : Reachable (Network.step capacity) (fun _ a => a.Routed R) s s') : s'.Routed R :=
  hs.invariant h fun _ _ _ h ha hstep => h.step ha hstep

omit [DecidableEq P] in
/-- Who waits for an inbox was made to send there. -/
theorem Routed.of_waitsFor {R : P → Send P M → Prop} (h : s.Routed R)
    (hwaits : s.WaitsFor capacity p q) : ∃ m, R p (.inside q m) := by
  obtain ⟨group, rest, m, hpending, hmem, -⟩ := hwaits
  refine ⟨m, h p group ?_ _ hmem⟩
  rw [hpending]
  exact List.mem_cons_self

/-! ## Knots -/

omit [DecidableEq P] in
theorem WaitsFor.pending_ne (h : s.WaitsFor capacity p q) : s.pending p ≠ [] := by
  obtain ⟨group, rest, m, hpending, -, -⟩ := h
  rw [hpending]
  exact List.cons_ne_nil _ _

omit [DecidableEq P] in
theorem WaitsFor.closed_eq (h : s.WaitsFor capacity p q) : s.closed q = false := by
  obtain ⟨_, _, _, -, -, hfull⟩ := h
  exact hfull.1

/-- A process waits on as long as the other one does not look at its inbox. -/
theorem WaitsFor.step (h : s.WaitsFor capacity p q) (hq : s.pending q ≠ []) {a : Action P M}
    (hstep : s.step capacity a = some s') : s'.WaitsFor capacity p q := by
  obtain ⟨hinbox, hclosed⟩ := inbox_of_step hstep hq
  have hpne := h.pending_ne
  obtain ⟨group, rest, m, hpending, hmem, hfull⟩ := h
  have hfull' : s'.Full capacity q := hfull.of_prefix hclosed hinbox
  rcases pending_of_step hstep p with
    hsame | ⟨_, hidle, -, -⟩ | ⟨group', rest', i, send, hpending', hi, hcan, hleft⟩
  · exact ⟨group, rest, m, hsame.trans hpending, hmem, hfull'⟩
  · exact absurd hidle hpne
  · obtain ⟨rfl, rfl⟩ := List.cons.inj (hpending.symm.trans hpending')
    -- what was sent is another message of the group
    have hleft_mem : .inside q m ∈ group.1.eraseIdx i := by
      refine List.mem_eraseIdx_iff_getElem?.mpr ?_
      obtain ⟨j, hj⟩ := List.mem_iff_getElem?.mp hmem
      refine ⟨j, ?_, hj⟩
      rintro rfl
      obtain rfl := Option.some.inj (hi.symm.trans hj)
      exact hcan hfull
    rw [remaining, dif_neg (List.ne_nil_of_mem hleft_mem)] at hleft
    exact ⟨_, rest, m, hleft, hleft_mem, hfull'⟩

/-- Nobody in a knot moves. -/
theorem Knot.step (h : s.Knot capacity D) {a : Action P M}
    (hstep : s.step capacity a = some s') :
    s'.Knot capacity D ∧ ∀ p ∈ D, s.inbox p <+: s'.inbox p := by
  have hne : ∀ p ∈ D, s.pending p ≠ [] := by
    intro p hp
    obtain ⟨q, -, hwaits⟩ := h p hp
    exact hwaits.pending_ne
  refine ⟨fun p hp => ?_, fun p hp => (inbox_of_step hstep (hne p hp)).1⟩
  obtain ⟨q, hq, hwaits⟩ := h p hp
  exact ⟨q, hq, hwaits.step (hne q hq) hstep⟩

/-- **A knot is for ever.** -/
theorem Knot.of_reachable {Allowed : Network P M → Action P M → Prop}
    (hs : Reachable (Network.step capacity) Allowed s s') (h : s.Knot capacity D) :
    s'.Knot capacity D ∧ ∀ p ∈ D, s.inbox p <+: s'.inbox p := by
  refine hs.invariant (P := fun s' => s'.Knot capacity D ∧ ∀ p ∈ D, s.inbox p <+: s'.inbox p)
    ⟨h, fun _ _ => List.prefix_refl _⟩ fun t a t' ht _ hstep => ?_
  obtain ⟨hknot, hinbox⟩ := Knot.step ht.1 hstep
  exact ⟨hknot, fun p hp => (ht.2 p hp).trans (hinbox p hp)⟩

/-! ## Stuck networks -/

/-- In a stuck network all that a process sends goes to full inboxes. -/
theorem Stuck.full (h : s.Stuck capacity) {group : Group P M} {rest : List (Group P M)}
    (hpending : s.pending p = group :: rest) {send : Send P M} (hsend : send ∈ group.1) :
    ∃ q m, send = .inside q m ∧ s.Full capacity q := by
  obtain ⟨i, hi⟩ := List.mem_iff_getElem?.mp hsend
  have hput := h.put p i
  simp only [Network.step, hpending, hi] at hput
  have hcannot : ¬ s.CanSend capacity send := by
    intro hcan
    rw [if_pos hcan] at hput
    cases hput
  cases send with
  | inside q m => exact ⟨q, m, rfl, not_not.mp hcannot⟩
  | outside => exact absurd trivial hcannot

/-- In a stuck network a process with a full inbox has something to send. -/
theorem Stuck.pending_ne (h : s.Stuck capacity) (hcapacity : 0 < capacity q)
    (hfull : s.Full capacity q) : s.pending q ≠ [] := by
  intro hidle
  have htake := h.take q []
  unfold Network.step at htake
  dsimp only at htake
  split at htake
  · rename_i hempty
    have hlength := hfull.2
    rw [hempty, List.length_nil] at hlength
    omega
  · rw [if_pos hidle] at htake
    cases htake

/-- **A stuck network has a knot**: all processes that have something to send. -/
theorem Stuck.knot (h : s.Stuck capacity) (hcapacity : ∀ q, 0 < capacity q) :
    s.Knot capacity {p | s.pending p ≠ []} := by
  intro p hp
  obtain ⟨group, rest, hpending⟩ := List.exists_cons_of_ne_nil hp
  obtain ⟨send, hsend⟩ := List.exists_mem_of_ne_nil _ group.2
  obtain ⟨q, m, rfl, hfull⟩ := h.full hpending hsend
  exact ⟨q, h.pending_ne (hcapacity q) hfull, group, rest, m, hpending, hsend, hfull⟩

end Network

end Processes
