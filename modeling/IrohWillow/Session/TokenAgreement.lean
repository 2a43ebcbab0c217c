import IrohWillow.Session.StaticTokens

/-!
# When the handles of static tokens agree

The handle of a static token is the position of its message in the channel.
`bind_and_send_ours` assigns the handle first and then waits for the channel,
so a token that is bound later by the other task can overtake: it fits where
the earlier one did not, or its task is polled first.

`handles_agree` says that in every run without overtaking the receiver binds
each token under the sender's handle.
-/

namespace IrohWillow.TokenExchange

/-- The messages between the two maps, in the order of sending. -/
def State.inFlight (s : State) : List StaticToken := s.network ++ s.buffered

/-- The number of messages sent. -/
def State.sent (s : State) : Nat := s.receiver.theirs.nextHandle + s.inFlight.length

/-- **The invariant.** What is bound by the receiver or in flight is bound by
the sender at the same position, and every other bound token is still waiting
in one of the tasks, unless the channel is closed. -/
structure Inv (s : State) : Prop where
  oursDense : s.sender.ours.Dense
  theirsDense : s.receiver.theirs.Dense
  bound : ∀ h token, s.receiver.theirs.tryGet h = some token → s.sender.ours.tryGet h = some token
  flying : ∀ j token, s.inFlight[j]? = some token →
    s.sender.ours.tryGet (s.receiver.theirs.nextHandle + j) = some token
  pending : ∀ task h token, s.progress task = .sending h token →
    s.sender.ours.tryGet h = some token ∧ s.sent ≤ h
  waiting : s.channel.isClosed = false → ∀ h, s.sent ≤ h → h < s.sender.ours.nextHandle →
    ∃ task token, s.progress task = .sending h token
  apart : ∀ task h token token', s.progress task = .sending h token →
    s.progress task.other ≠ .sending h token'
  returned : ∀ h token, (h, token) ∈ s.returned → s.sender.ours.tryGet h = some token

theorem Task.eq_or_eq_other (a b : Task) : a = b ∨ a = b.other := by
  cases a <;> cases b <;> simp [Task.other]

theorem Task.other_ne (a : Task) : a.other ≠ a := by
  cases a <;> simp [Task.other]

theorem Inv.start (channel : Inner) : Inv { channel := channel } where
  oursDense := ResourceMap.dense_empty
  theirsDense := ResourceMap.dense_empty
  bound h token hb := by simp [ResourceMap.tryGet] at hb
  flying j token hj := by simp [State.inFlight] at hj
  pending _ _ _ hp := by simp at hp
  waiting _ h _ hlt := by simp at hlt
  apart _ _ _ _ hp := by simp at hp
  returned _ _ hr := by simp at hr

/-- No more messages were sent than tokens bound. -/
theorem Inv.sent_le {s : State} (h : Inv s) : s.sent ≤ s.sender.ours.nextHandle := by
  unfold State.sent
  cases hlen : s.inFlight.length with
  | zero =>
      cases hn : s.receiver.theirs.nextHandle with
      | zero => exact Nat.zero_le _
      | succ n =>
          obtain ⟨token, ht⟩ := Option.isSome_iff_exists.mp
            ((h.theirsDense n).mpr (by rw [hn]; exact Nat.lt_succ_self n))
          have hlt := (h.oursDense n).mp (by rw [h.bound n token ht]; rfl)
          omega
  | succ n =>
      have hget := List.getElem?_eq_getElem (l := s.inFlight) (i := n) (by omega)
      have hlt := (h.oursDense _).mp (by rw [h.flying n _ hget]; rfl)
      omega

/-! ## Binding -/

/-- A token bound by an idle task waits for the channel. -/
theorem Inv.bind {s : State} (h : Inv s) {task : Task} (hidle : s.progress task = .idle)
    (token : StaticToken) :
    Inv { s with
      sender := { s.sender with ours := (s.sender.ours.bind token).2 }
      progress := Function.update s.progress task
        (.sending s.sender.ours.nextHandle token) } where
  oursDense := h.oursDense.bind
  theirsDense := h.theirsDense
  bound i t hb := h.oursDense.tryGet_bind (h.bound i t hb)
  flying j t hj := h.oursDense.tryGet_bind (h.flying j t hj)
  pending := by
    intro task' i t hp
    by_cases heq : task' = task
    · subst heq
      simp only [Function.update_self, Progress.sending.injEq] at hp
      obtain ⟨rfl, rfl⟩ := hp
      exact ⟨ResourceMap.tryGet_bind_self, h.sent_le⟩
    · simp only [Function.update_of_ne heq] at hp
      obtain ⟨hget, hle⟩ := h.pending task' i t hp
      exact ⟨h.oursDense.tryGet_bind hget, hle⟩
  waiting := by
    intro hopen i hle hlt
    by_cases heq : i = s.sender.ours.nextHandle
    · exact ⟨task, token, by simp [heq]⟩
    · have hlt' : i < s.sender.ours.nextHandle := by
        have : i < s.sender.ours.nextHandle + 1 := hlt
        omega
      obtain ⟨task', t, ht⟩ := h.waiting hopen i hle hlt'
      have hne : task' ≠ task := by
        rintro rfl
        simp [hidle] at ht
      exact ⟨task', t, by simp [Function.update_of_ne hne, ht]⟩
  apart := by
    -- the new handle is above all handles that are waiting
    have hfresh : ∀ task' t, s.progress task' ≠ .sending s.sender.ours.nextHandle t := by
      intro task' t hp
      have hget := (h.pending task' _ t hp).1
      rw [h.oursDense.tryGet_nextHandle] at hget
      cases hget
    intro task' i t t' hp hp'
    by_cases heq : task' = task
    · subst heq
      simp only [Function.update_self, Progress.sending.injEq] at hp
      simp only [Function.update_of_ne (Task.other_ne task')] at hp'
      exact hfresh _ _ (hp.1 ▸ hp')
    · simp only [Function.update_of_ne heq] at hp
      rcases Task.eq_or_eq_other task'.other task with heq' | heq'
      · simp only [heq', Function.update_self, Progress.sending.injEq] at hp'
        exact hfresh _ _ (hp'.1 ▸ hp)
      · have hne : task'.other ≠ task := by
          rw [heq']
          exact Task.other_ne task
        simp only [Function.update_of_ne hne] at hp'
        exact h.apart task' i t t' hp hp'
  returned i t hr := h.oursDense.tryGet_bind (h.returned i t hr)

/-! ## Sending -/

/-- A parked task goes on waiting. -/
theorem Inv.park {s : State} (h : Inv s) {task : Task} {handle : Nat} {token : StaticToken}
    (hp : s.progress task = .sending handle token) (channel : Inner)
    (hclosed : channel.isClosed = s.channel.isClosed) :
    Inv { s with
      channel := channel
      progress := Function.update s.progress task (.sending handle token) } := by
  have hsame : Function.update s.progress task (.sending handle token) = s.progress := by
    rw [← hp, Function.update_eq_self]
  rw [hsame]
  exact ⟨h.oursDense, h.theirsDense, h.bound, h.flying, h.pending,
    fun hopen => h.waiting (hclosed ▸ hopen), h.apart, h.returned⟩

/-- A call that fails on the closed channel takes its task out. -/
theorem Inv.fail {s : State} (h : Inv s) (hclosed : s.channel.isClosed = true) (task : Task) :
    Inv { s with progress := Function.update s.progress task .failed } := by
  have hold : ∀ task' i t, Function.update s.progress task .failed task' = .sending i t →
      s.progress task' = .sending i t := by
    intro task' i t hp
    by_cases heq : task' = task
    · subst heq
      simp at hp
    · rwa [Function.update_of_ne heq] at hp
  exact ⟨h.oursDense, h.theirsDense, h.bound, h.flying,
    fun task' i t hp => h.pending task' i t (hold _ _ _ hp),
    fun hopen => absurd hopen (by simp [hclosed]),
    fun task' i t t' hp hp' => h.apart task' i t t' (hold _ _ _ hp) (hold _ _ _ hp'), h.returned⟩

/-- A token that goes through in order is the next one the receiver expects. -/
theorem Inv.send {s : State} (h : Inv s) {task : Task} {handle : Nat} {token : StaticToken}
    (hp : s.progress task = .sending handle token) (hopen : s.channel.isClosed = false)
    (horder : ∀ handle' t, s.progress task.other = .sending handle' t → ¬ handle' < handle)
    (channel : Inner) :
    Inv { s with
      channel := channel
      progress := Function.update s.progress task .idle
      buffered := s.buffered ++ [token]
      returned := s.returned ++ [(handle, token)] } := by
  obtain ⟨hget, hle⟩ := h.pending task handle token hp
  -- otherwise the handle in front would be waiting in the other task
  have hnext : handle = s.sent := by
    by_contra hne
    obtain ⟨task', t, ht⟩ := h.waiting hopen s.sent (Nat.le_refl _)
      ((h.oursDense _).mp (by rw [hget]; rfl) |>.trans_le' hle)
    rcases Task.eq_or_eq_other task' task with rfl | rfl
    · rw [hp] at ht
      exact hne (Progress.sending.inj ht).1
    · exact horder _ _ ht (by omega)
  have hold : ∀ task' i t, Function.update s.progress task .idle task' = .sending i t →
      task' ≠ task ∧ s.progress task' = .sending i t := by
    intro task' i t hp'
    by_cases heq : task' = task
    · subst heq
      simp at hp'
    · exact ⟨heq, by rwa [Function.update_of_ne heq] at hp'⟩
  have hsent : s.receiver.theirs.nextHandle + (s.network ++ (s.buffered ++ [token])).length =
      s.sent + 1 := by
    simp only [State.sent, State.inFlight, List.length_append, List.length_singleton]
    omega
  refine ⟨h.oursDense, h.theirsDense, h.bound, ?_, ?_, ?_, ?_, ?_⟩
  · intro j t hj
    have hj' : (s.inFlight ++ [token])[j]? = some t := by
      simpa [State.inFlight, List.append_assoc] using hj
    by_cases hlt : j < s.inFlight.length
    · rw [List.getElem?_append_left hlt] at hj'
      exact h.flying j t hj'
    · rw [List.getElem?_append_right (not_lt.mp hlt), List.getElem?_singleton] at hj'
      obtain ⟨hzero, rfl⟩ := by simpa using hj'
      have : s.receiver.theirs.nextHandle + j = handle := by
        rw [hnext, State.sent]
        omega
      show s.sender.ours.tryGet (s.receiver.theirs.nextHandle + j) = some token
      rw [this, hget]
  · intro task' i t hp'
    obtain ⟨hne, hold'⟩ := hold task' i t hp'
    obtain ⟨hget', hle'⟩ := h.pending task' i t hold'
    refine ⟨hget', ?_⟩
    have hother : task' = task.other := (Task.eq_or_eq_other task' task).resolve_left hne
    have happart : i ≠ handle := by
      rintro rfl
      exact h.apart task i token t hp (hother ▸ hold')
    show s.receiver.theirs.nextHandle + (s.network ++ (s.buffered ++ [token])).length ≤ i
    omega
  · intro _ i hi hlt
    have hi' : s.sent + 1 ≤ i := hsent ▸ hi
    obtain ⟨task', t, ht⟩ := h.waiting hopen i (by omega) hlt
    have hne : task' ≠ task := by
      rintro rfl
      rw [hp] at ht
      have := (Progress.sending.inj ht).1
      omega
    exact ⟨task', t, by simp only [Function.update_of_ne hne, ht]⟩
  · intro task' i t t' hp' hp''
    exact h.apart task' i t t' (hold _ _ _ hp').2 (hold _ _ _ hp'').2
  · intro i t hr
    rcases List.mem_append.mp hr with hr | hr
    · exact h.returned i t hr
    · obtain ⟨rfl, rfl⟩ := Prod.mk.inj (List.mem_singleton.mp hr)
      exact hget

section Agreement

variable [Encoder StaticToken]

/-- The action lets a token through while a token bound before it waits. -/
def Overtakes (s : State) : Action → Prop
  | .call task token =>
      s.progress task = .idle ∧ s.sender.ours.find token = none ∧ s.channel.Accepts token ∧
        (s.progress task.other).IsSending
  | .poll task =>
      match s.progress task, s.progress task.other with
      | .sending handle token, .sending handle' _ => s.channel.Accepts token ∧ handle' < handle
      | _, _ => False
  | _ => False

instance (s : State) : (a : Action) → Decidable (Overtakes s a)
  | .call _ _ => inferInstanceAs (Decidable (_ ∧ _ ∧ _ ∧ _))
  | .poll task =>
      match h : s.progress task, h' : s.progress task.other with
      | .sending handle token, .sending handle' _ =>
          decidable_of_iff (s.channel.Accepts token ∧ handle' < handle) (by simp [Overtakes, h, h'])
      | .sending _ _, .idle => isFalse (by simp [Overtakes, h, h'])
      | .sending _ _, .failed => isFalse (by simp [Overtakes, h, h'])
      | .idle, _ => isFalse (by simp [Overtakes, h])
      | .failed, _ => isFalse (by simp [Overtakes, h])
  | .drain => isFalse not_false
  | .addGuarantees _ => isFalse not_false
  | .close => isFalse not_false
  | .deliver => isFalse not_false

/-- Polling a token that does not overtake keeps the invariant. -/
theorem Inv.pollSend {s : State} (h : Inv s) {task : Task} {handle : Nat} {token : StaticToken}
    (hp : s.progress task = .sending handle token)
    (horder : s.channel.Accepts token →
      ∀ handle' t, s.progress task.other = .sending handle' t → ¬ handle' < handle) :
    Inv (pollSend s task handle token) := by
  obtain ⟨res, channel, hpoll⟩ : ∃ res channel,
      s.channel.pollSendMessage token task.waker = (res, channel) := ⟨_, _, rfl⟩
  unfold TokenExchange.pollSend
  rw [hpoll]
  rcases Inner.pollSendMessage_cases s.channel token task.waker with
    ⟨hclosed, hres⟩ | ⟨hacc, hres, -⟩ | ⟨hclosed, -, hres, hopen⟩
  · rw [hpoll] at hres
    obtain ⟨rfl, rfl⟩ := Prod.mk.inj hres
    exact h.fail hclosed task
  · rw [hpoll] at hres
    obtain rfl : res = .ready (.ok ()) := hres
    exact h.send hp hacc.1 (horder hacc) channel
  · rw [hpoll] at hres hopen
    obtain rfl : res = .pending := hres
    exact h.park hp channel (hopen.trans hclosed.symm)

/-! ## Whole runs -/

/-- **One step.** Every step that does not overtake keeps the invariant. -/
theorem Inv.step {s s' : State} {action : Action} (h : Inv s) (horder : ¬ Overtakes s action)
    (hstep : step s action = some s') : Inv s' := by
  cases action with
  | call task token =>
      simp only [TokenExchange.step] at hstep
      split at hstep
      · rename_i hidle
        rcases ResourceMap.bindIfNew_cases s.sender.ours token with
          ⟨handle, hget, hbind⟩ | hbind
        · -- bound before: the call returns at once
          simp only [StaticTokens.bindOurs, hbind, Bool.false_eq_true, if_false,
            Option.some.injEq] at hstep
          subst hstep
          refine ⟨h.oursDense, h.theirsDense, h.bound, h.flying, h.pending, h.waiting, h.apart, ?_⟩
          intro i t hr
          rcases List.mem_append.mp hr with hr | hr
          · exact h.returned i t hr
          · obtain ⟨rfl, rfl⟩ := Prod.mk.inj (List.mem_singleton.mp hr)
            exact hget
        · simp only [StaticTokens.bindOurs, hbind, if_true, Option.some.injEq] at hstep
          subst hstep
          have hnone : s.sender.ours.find token = none := by
            cases hf : s.sender.ours.find token with
            | none => rfl
            | some i => simp [ResourceMap.bindIfNew, hf] at hbind
          -- binding and the first poll are one step
          have hbound := @Inv.pollSend _ _ (h.bind hidle token) task s.sender.ours.nextHandle
            token (by simp) (by
              intro hacc handle' t hp _
              simp only [Function.update_of_ne (Task.other_ne task)] at hp
              exact horder ⟨hidle, hnone, hacc, hp ▸ trivial⟩)
          unfold TokenExchange.pollSend at hbound ⊢
          cases hpoll : s.channel.pollSendMessage token task.waker with
          | mk res channel =>
              simp only [hpoll] at hbound ⊢
              split at hbound <;> simpa using hbound
      · cases hstep
  | poll task =>
      simp only [TokenExchange.step] at hstep
      split at hstep
      · rename_i handle token hp
        obtain rfl := Option.some.inj hstep
        refine h.pollSend hp fun hacc handle' t hp' hlt => horder ?_
        simp only [Overtakes, hp, hp']
        exact ⟨hacc, hlt⟩
      · cases hstep
  | drain =>
      obtain rfl := Option.some.inj hstep
      exact ⟨h.oursDense, h.theirsDense, h.bound, by simpa [State.inFlight] using h.flying,
        by simpa [State.sent, State.inFlight] using h.pending,
        fun hopen => by
          simpa [State.sent, State.inFlight] using
            h.waiting ((Inner.isClosed_pollReadBytes _ _).symm.trans hopen),
        h.apart, h.returned⟩
  | addGuarantees amount =>
      obtain rfl := Option.some.inj hstep
      exact ⟨h.oursDense, h.theirsDense, h.bound, h.flying, h.pending,
        fun hopen => h.waiting ((Inner.isClosed_addGuarantees _ _).symm.trans hopen),
        h.apart, h.returned⟩
  | close =>
      obtain rfl := Option.some.inj hstep
      exact ⟨h.oursDense, h.theirsDense, h.bound, h.flying, h.pending,
        fun hopen => absurd hopen (by simp [Inner.close, Inner.wakeReadable, Inner.wakeWritable]),
        h.apart, h.returned⟩
  | deliver =>
      simp only [TokenExchange.step] at hstep
      split at hstep
      · cases hstep
      · rename_i token rest hnet
        obtain rfl := Option.some.inj hstep
        have hfirst : s.sender.ours.tryGet s.receiver.theirs.nextHandle = some token :=
          h.flying 0 token (by simp [State.inFlight, hnet])
        have hsent : s.receiver.theirs.nextHandle + 1 + (rest ++ s.buffered).length = s.sent := by
          simp only [State.sent, State.inFlight, hnet, List.length_append, List.length_cons]
          omega
        refine ⟨h.oursDense, h.theirsDense.bind, ?_, ?_, ?_, ?_, h.apart, h.returned⟩
        · intro i t hb
          by_cases heq : i = s.receiver.theirs.nextHandle
          · subst heq
            rw [StaticTokens.bindTheirs, ResourceMap.tryGet_bind_self] at hb
            rw [hfirst, ← hb]
          · exact h.bound i t ((ResourceMap.tryGet_bind_of_ne heq).symm.trans hb)
        · intro j t hj
          have := h.flying (j + 1) t (by simpa [State.inFlight, hnet] using hj)
          show s.sender.ours.tryGet (s.receiver.theirs.nextHandle + 1 + j) = some t
          rwa [Nat.add_assoc, Nat.add_comm 1 j]
        · intro task i t hp
          obtain ⟨hget, hle⟩ := h.pending task i t hp
          exact ⟨hget, hsent.trans_le hle⟩
        · intro hopen i hle
          exact h.waiting hopen i (hsent.ge.trans hle)

/-- **Handle agreement.** In every run in which no token overtakes one that
was bound before it, the receiver binds under each handle the token the sender
bound under it, so an entry that arrives with the handle returned for a token
is authorised with this token. -/
theorem handles_agree (channel : Inner) {s : State}
    (hrun : Transition.Reachable step (fun s a => ¬ Overtakes s a) { channel := channel } s) :
    (∀ h token, s.receiver.theirs.tryGet h = some token → s.sender.ours.tryGet h = some token) ∧
    ∀ h token, (h, token) ∈ s.returned → ∀ token', s.receiver.theirs.tryGet h = some token' →
      token' = token := by
  have hinv : Inv s := hrun.invariant (Inv.start channel) fun _ _ _ hs ha hstep => hs.step ha hstep
  refine ⟨hinv.bound, fun h token hr token' hb => ?_⟩
  have h1 := hinv.bound h token' hb
  rw [hinv.returned h token hr] at h1
  exact (Option.some.inj h1).symm

end Agreement

/-! ### Two runs -/

section Samples

open IrohWillow.Sample

/-- Three bytes for each delegation. -/
@[reducible] def Sample.delegationBytes : Encoder StaticToken where
  encode token := List.replicate (3 * token.delegations.length) 0

attribute [local instance] Sample.delegationBytes

/-- A write capability with a chain of delegations. -/
def delegated (n : Nat) (user : Byte) : StaticToken :=
  { writeCapability with
    delegations := List.replicate n ⟨.full, .ofByte user, .ofByte 0⟩ }

/-- The reconciler fills the channel and has to wait with its second token;
the token of the data sender is bound later and fits. -/
def overtaking : List Action :=
  [.call .reconciler (delegated 2 1), .call .reconciler (delegated 2 2),
    .call .dataSender (delegated 1 3), .drain, .deliver, .deliver]

/-- The receiver has bound the data sender's token under the handle that the
sender gave to the reconciler's. -/
theorem handles_disagree_overtaking :
    ¬ ∀ (_ : Encoder StaticToken) (channel : Inner) (s : State),
      Transition.Reachable step (fun _ _ => True) { channel := channel } s →
      ∀ h token, s.receiver.theirs.tryGet h = some token →
        s.sender.ours.tryGet h = some token := by
  intro h
  let start : State := { channel := { maxBufferSize := 10, guarantees := .unlimited } }
  have hrun : ((Transition.run step start overtaking).map fun s =>
      (s.receiver.theirs.tryGet 1, s.sender.ours.tryGet 1)) =
      some (some (delegated 1 3), some (delegated 2 2)) := by decide
  obtain ⟨s, hs, heq⟩ := Option.map_eq_some_iff.mp hrun
  obtain ⟨htheirs, hours⟩ := Prod.mk.inj heq
  have hagree := h Sample.delegationBytes _ s (.of_run hs (by decide)) 1 _ htheirs
  rw [hours] at hagree
  exact absurd (Option.some.inj hagree) (by decide)

/-- One token of each task, in order. -/
theorem handles_agree_inOrder :
    ∃ s, Transition.Reachable step (fun s a => ¬ Overtakes s a)
        { channel := { maxBufferSize := 10, guarantees := .unlimited } } s ∧
      s.receiver.theirs.tryGet 1 = some (delegated 1 3) ∧
      s.sender.ours.tryGet 1 = some (delegated 1 3) := by
  let start : State := { channel := { maxBufferSize := 10, guarantees := .unlimited } }
  let actions : List Action :=
    [.call .reconciler (delegated 2 1), .call .dataSender (delegated 1 3), .drain, .deliver,
      .deliver]
  have hrun : ((Transition.run step start actions).map fun s =>
      s.receiver.theirs.tryGet 1) = some (some (delegated 1 3)) := by decide
  obtain ⟨s, hs, htheirs⟩ := Option.map_eq_some_iff.mp hrun
  have hreach : Transition.Reachable step (fun s a => ¬ Overtakes s a) start s :=
    .of_run hs (by decide)
  exact ⟨s, hreach, htheirs, (handles_agree _ hreach).1 1 _ htheirs⟩

end Samples

end IrohWillow.TokenExchange
