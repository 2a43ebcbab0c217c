import IrohWillow.Proto.Messages

/-!
# Operations on one channel

Any number of tasks poll the two ends of one `Inner`, grant guarantees and
close it, in any order. `apply` is the state after an operation; a poll that
returns `Pending` has parked its task (`Parks`).

* `Account` adds up what was granted and what was sent;
* `woken` are the tasks that an operation has woken.
-/

namespace IrohWillow

/-- The poll has parked its task. -/
def Poll.isPending {α : Type} : Poll α → Bool
  | .ready _ => false
  | .pending => true

namespace Guarantees

theorem get_add (current amount : U64) :
    (Guarantees.limited current |>.add amount).get = (current.val + amount.val) % 2 ^ 64 :=
  Fin.val_add current amount

theorem get_use {current : U64} {amount : Nat} (h : amount ≤ current.val) :
    (Guarantees.limited current |>.use amount).get = current.val - amount := by
  have hlt := current.isLt
  show (current - Fin.ofNat (2 ^ 64) amount).val = _
  rw [Fin.sub_val_of_le]
  · show current.val - amount % 2 ^ 64 = _
    rw [Nat.mod_eq_of_lt (by omega)]
  · show amount % 2 ^ 64 ≤ current.val
    rw [Nat.mod_eq_of_lt (by omega)]
    exact h

theorem get_use_le (g : Guarantees) {amount : Nat} (h : amount ≤ g.get) :
    (g.use amount).get ≤ g.get := by
  cases g with
  | unlimited => exact le_refl _
  | limited current =>
      rw [get_use h]
      exact Nat.sub_le _ _

end Guarantees

namespace Inner

/-- An operation on the channel, with the task that polls. -/
inductive Op (M : Type) where
  | addGuarantees (amount : U64)
  | close
  | write (bytes : List Byte) (waker : Waker)
  | readBytes (waker : Waker)
  | send (item : M) (waker : Waker)
  | recv (waker : Waker)
  deriving DecidableEq

section Model

variable {M : Type} [Postcard M]

/-- The state after an operation. -/
def apply (c : Inner) : Op M → Inner
  | .addGuarantees amount => c.addGuarantees amount
  | .close => c.close
  | .write bytes waker => (c.pollWrite bytes waker).2
  | .readBytes waker => (c.pollReadBytes waker).2
  | .send item waker => (c.pollSendMessage item waker).2
  | .recv waker => (c.pollRecvMessage (T := M) waker).2

/-- The operation is a poll that returns `Pending`. -/
def Parks (c : Inner) : Op M → Prop
  | .addGuarantees _ => False
  | .close => False
  | .write bytes waker => (c.pollWrite bytes waker).1.isPending = true
  | .readBytes waker => (c.pollReadBytes waker).1.isPending = true
  | .send item waker => (c.pollSendMessage item waker).1.isPending = true
  | .recv waker => (c.pollRecvMessage (T := M) waker).1.isPending = true

instance (c : Inner) : (op : Op M) → Decidable (c.Parks op)
  | .addGuarantees _ => isFalse not_false
  | .close => isFalse not_false
  | .write _ _ => inferInstanceAs (Decidable (_ = _))
  | .readBytes _ => inferInstanceAs (Decidable (_ = _))
  | .send _ _ => inferInstanceAs (Decidable (_ = _))
  | .recv _ => inferInstanceAs (Decidable (_ = _))

/-- The number of bytes that an operation puts into the channel. -/
def accepted (c : Inner) : Op M → Nat
  | .write bytes waker =>
      match (c.pollWrite bytes waker).1 with
      | .ready (.ok len) => len
      | _ => 0
  | .send item waker =>
      match (c.pollSendMessage item waker).1 with
      | .ready (.ok ()) => (Encoder.encode item).length
      | _ => 0
  | _ => 0

end Model

/-! ## What one operation does -/

section Cases

variable {M : Type} [Postcard M]

/-- What a poll for writing can do. -/
theorem pollWrite_cases (c : Inner) (bytes : List Byte) (waker : Waker) :
    (c.isClosed = true ∧ c.pollWrite bytes waker = (.ready (.error .brokenPipe), c)) ∨
    (c.isClosed = false ∧ c.remainingWriteCapacity = 0 ∧
      c.pollWrite bytes waker =
        (.pending, { c with writeWakers := c.writeWakers ++ [waker] })) ∨
    (c.isClosed = false ∧ 0 < c.remainingWriteCapacity ∧
      ∃ len, len = min bytes.length c.remainingWriteCapacity ∧
        c.pollWrite bytes waker = (.ready (.ok len), { c with
          buf := c.buf ++ bytes.take len
          guarantees := c.guarantees.use len
          readWakers := [] })) := by
  unfold pollWrite
  cases hclosed : c.isClosed with
  | true => exact Or.inl ⟨rfl, rfl⟩
  | false =>
      by_cases hcap : c.remainingWriteCapacity = 0
      · refine Or.inr (Or.inl ⟨rfl, hcap, ?_⟩)
        simp [hcap]
      · refine Or.inr (Or.inr ⟨rfl, Nat.pos_of_ne_zero hcap, _, rfl, ?_⟩)
        simp [hcap, wakeReadable]

/-- What a poll for bytes can do. -/
theorem pollReadBytes_cases (c : Inner) (waker : Waker) :
    (c.buf ≠ [] ∧ c.pollReadBytes waker =
      (.ready (some c.buf), { c with buf := [], writeWakers := [] })) ∨
    (c.buf = [] ∧ c.isClosed = true ∧ c.pollReadBytes waker = (.ready none, c)) ∨
    (c.buf = [] ∧ c.isClosed = false ∧
      c.pollReadBytes waker = (.pending, { c with readWakers := c.readWakers ++ [waker] })) := by
  unfold pollReadBytes
  by_cases hbuf : c.buf = []
  · cases hclosed : c.isClosed with
    | true =>
        refine Or.inr (Or.inl ⟨hbuf, rfl, ?_⟩)
        simp [hbuf]
    | false =>
        refine Or.inr (Or.inr ⟨hbuf, rfl, ?_⟩)
        simp [hbuf]
  · refine Or.inl ⟨hbuf, ?_⟩
    simp [hbuf, wakeWritable]

/-- What a poll for sending can do, with the state after it. -/
theorem pollSendMessage_eq (c : Inner) (item : M) (waker : Waker) :
    (c.isClosed = true ∧ c.pollSendMessage item waker = (.ready (.error .closed), c)) ∨
    (c.isClosed = false ∧ c.remainingWriteCapacity < (Encoder.encode item).length ∧
      c.pollSendMessage item waker =
        (.pending, { c with writeWakers := c.writeWakers ++ [waker] })) ∨
    (c.isClosed = false ∧ (Encoder.encode item).length ≤ c.remainingWriteCapacity ∧
      c.pollSendMessage item waker = (.ready (.ok ()), { c with
        buf := c.buf ++ Encoder.encode item
        guarantees := c.guarantees.use (Encoder.encode item).length
        readWakers := [] })) := by
  unfold pollSendMessage
  cases hclosed : c.isClosed with
  | true => exact Or.inl ⟨rfl, rfl⟩
  | false =>
      by_cases hcap : c.remainingWriteCapacity < (Encoder.encode item).length
      · refine Or.inr (Or.inl ⟨rfl, hcap, ?_⟩)
        simp [hcap]
      · refine Or.inr (Or.inr ⟨rfl, not_lt.mp hcap, ?_⟩)
        simp [hcap, wakeReadable]

/-- What a poll for a message can do. -/
theorem pollRecvMessage_cases (c : Inner) (waker : Waker) :
    (c.isClosed = true ∧ c.buf = [] ∧ c.pollRecvMessage (T := M) waker = (.ready none, c)) ∨
    ((∃ e, Decoder.decodeFrom (T := M) c.buf = .error e ∧
      c.pollRecvMessage (T := M) waker = (.ready (some (.error (.decode e))), c))) ∨
    (c.isClosed = true ∧ c.buf ≠ [] ∧ Decoder.decodeFrom (T := M) c.buf = .ok .needMoreData ∧
      c.pollRecvMessage (T := M) waker = (.ready (some (.error .closedIncomplete)), c)) ∨
    (c.isClosed = false ∧ Decoder.decodeFrom (T := M) c.buf = .ok .needMoreData ∧
      c.pollRecvMessage (T := M) waker =
        (.pending, { c with readWakers := c.readWakers ++ [waker] })) ∨
    (∃ item consumed, Decoder.decodeFrom (T := M) c.buf = .ok (.decoded item consumed) ∧
      c.pollRecvMessage (T := M) waker = (.ready (some (.ok item)),
        { c with buf := c.buf.drop consumed, writeWakers := [] })) := by
  unfold pollRecvMessage
  by_cases hend : c.isClosed = true ∧ c.buf = []
  · exact Or.inl ⟨hend.1, hend.2, if_pos hend⟩
  · rw [if_neg hend]
    right
    cases hdecode : Decoder.decodeFrom (T := M) c.buf with
    | error e => exact Or.inl ⟨e, rfl, rfl⟩
    | ok outcome =>
        right
        cases outcome with
        | decoded item consumed => exact Or.inr (Or.inr ⟨item, consumed, rfl, rfl⟩)
        | needMoreData =>
            cases hclosed : c.isClosed with
            | true => exact Or.inl ⟨rfl, fun hbuf => hend ⟨hclosed, hbuf⟩, rfl, rfl⟩
            | false => exact Or.inr (Or.inl ⟨rfl, rfl, rfl⟩)

end Cases

/-! ## Guarantees -/

section Account

variable {M : Type} [Postcard M]

theorem guarantees_addGuarantees (c : Inner) (amount : U64) :
    (c.addGuarantees amount).guarantees = c.guarantees.add amount := by
  unfold addGuarantees
  dsimp only
  split <;> rfl

/-- An operation that grants nothing uses up exactly what it puts into the
channel, and there was enough for it. -/
theorem guarantees_apply (c : Inner) (op : Op M) (hop : ∀ amount, op ≠ .addGuarantees amount) :
    (c.apply op).guarantees = c.guarantees.use (c.accepted op) ∧
      c.accepted op ≤ c.guarantees.get := by
  have huse : c.guarantees = c.guarantees.use 0 := by
    cases c.guarantees with
    | unlimited => rfl
    | limited current =>
        show _ = Guarantees.limited (current - 0)
        rw [sub_zero]
  -- what can be written is bounded by the guarantees
  have hcap : c.remainingWriteCapacity ≤ c.guarantees.get := min_le_right _ _
  cases op with
  | addGuarantees amount => exact absurd rfl (hop amount)
  | close => exact ⟨huse, Nat.zero_le _⟩
  | write bytes waker =>
      simp only [apply, accepted]
      rcases c.pollWrite_cases bytes waker with ⟨-, h⟩ | ⟨-, -, h⟩ | ⟨-, -, len, hlen, h⟩
      · rw [h]
        exact ⟨huse, Nat.zero_le _⟩
      · rw [h]
        exact ⟨huse, Nat.zero_le _⟩
      · rw [h]
        refine ⟨rfl, ?_⟩
        show len ≤ _
        omega
  | readBytes waker =>
      simp only [apply, accepted]
      refine ⟨?_, Nat.zero_le _⟩
      rcases c.pollReadBytes_cases waker with ⟨-, h⟩ | ⟨-, -, h⟩ | ⟨-, -, h⟩
      · rw [h]
        exact huse
      · rw [h]
        exact huse
      · rw [h]
        exact huse
  | send item waker =>
      simp only [apply, accepted]
      rcases c.pollSendMessage_eq item waker with ⟨-, h⟩ | ⟨-, -, h⟩ | ⟨-, hlen, h⟩
      · rw [h]
        exact ⟨huse, Nat.zero_le _⟩
      · rw [h]
        exact ⟨huse, Nat.zero_le _⟩
      · rw [h]
        exact ⟨rfl, hlen.trans hcap⟩
  | recv waker =>
      simp only [apply, accepted]
      refine ⟨?_, Nat.zero_le _⟩
      rcases c.pollRecvMessage_cases (M := M) waker with
        ⟨-, -, h⟩ | ⟨e, -, h⟩ | ⟨-, -, -, h⟩ | ⟨-, -, h⟩ | ⟨item, consumed, -, h⟩
      · rw [h]
        exact huse
      · rw [h]
        exact huse
      · rw [h]
        exact huse
      · rw [h]
        exact huse
      · rw [h]
        exact huse

/-- A channel, with all that was granted to it and all the bytes that were put
into it. -/
structure Account where
  inner : Inner
  issued : Nat := 0
  used : Nat := 0

namespace Account

/-- What an operation grants. -/
def grant : Op M → Nat
  | .addGuarantees amount => amount.val
  | _ => 0

/-- One operation. -/
def step (s : Account) (op : Op M) : Account :=
  { inner := s.inner.apply op
    issued := s.issued + grant op
    used := s.used + s.inner.accepted op }

/-- A list of operations. -/
def run (s : Account) (ops : List (Op M)) : Account := ops.foldl step s

/-- What may still be sent is what was granted less what was sent, and never
was more sent than granted. -/
def Exact (s : Account) : Prop :=
  s.inner.guarantees.get = min (2 ^ 64 - 1) (s.issued - s.used) ∧ s.used ≤ s.issued

/-- The state of the account: the counter of the channel is right modulo
`2 ^ 64`. -/
structure Inv (s : Account) : Prop where
  used_le : s.used ≤ s.issued
  counter : ∃ current, s.inner.guarantees = .limited current ∧
    current.val = (s.issued - s.used) % 2 ^ 64

theorem Inv.step {s : Account} (h : Inv s) (op : Op M) : Inv (s.step op) := by
  obtain ⟨current, hlimited, hcurrent⟩ := h.counter
  have hle := h.used_le
  by_cases hop : ∃ amount, op = .addGuarantees amount
  · obtain ⟨amount, rfl⟩ := hop
    have hguarantees : (s.inner.addGuarantees amount).guarantees =
        .limited (current + amount) := by
      rw [guarantees_addGuarantees, hlimited]
      rfl
    refine ⟨?_, current + amount, hguarantees, ?_⟩
    · show s.used + 0 ≤ s.issued + amount.val
      omega
    · show (current + amount).val = (s.issued + amount.val - (s.used + 0)) % 2 ^ 64
      rw [Fin.val_add, hcurrent]
      omega
  · obtain ⟨huse, henough⟩ := s.inner.guarantees_apply op (fun amount heq => hop ⟨amount, heq⟩)
    have hgrant : grant op = 0 := by
      cases op with
      | addGuarantees amount => exact absurd ⟨amount, rfl⟩ hop
      | close => rfl
      | write bytes waker => rfl
      | readBytes waker => rfl
      | send item waker => rfl
      | recv waker => rfl
    rw [hlimited] at huse henough
    have hget := Guarantees.get_use henough
    have hcurrent_le : s.inner.accepted op ≤ current.val := henough
    refine ⟨?_, _, huse, ?_⟩
    · show s.used + s.inner.accepted op ≤ s.issued + grant op
      omega
    · show _ = (s.issued + grant op - (s.used + s.inner.accepted op)) % 2 ^ 64
      rw [hgrant]
      refine hget.trans ?_
      omega

/-- The channel at its start. -/
def start (maxBufferSize : Nat) : Account :=
  { inner := { maxBufferSize := maxBufferSize, guarantees := .limited 0 } }

theorem Inv.run {s : Account} (h : Inv s) (ops : List (Op M)) : Inv (s.run ops) := by
  induction ops generalizing s with
  | nil => exact h
  | cons op rest ih => exact ih (h.step op)

theorem inv_start (maxBufferSize : Nat) : Inv (start maxBufferSize) :=
  ⟨le_refl _, 0, rfl, rfl⟩

theorem run_take_succ (s : Account) {ops : List (Op M)} {k : Nat} {op : Op M}
    (h : ops[k]? = some op) : s.run (ops.take (k + 1)) = (s.run (ops.take k)).step op := by
  rw [List.take_add_one, h]
  exact List.foldl_concat ..

/-- As long as the balance is a 64-bit number the counter holds it. -/
theorem Inv.exact {s : Account} (h : Inv s) (hlt : s.issued - s.used < 2 ^ 64) : Exact s := by
  obtain ⟨current, hlimited, hcurrent⟩ := h.counter
  refine ⟨?_, h.used_le⟩
  rw [hlimited]
  show current.val = _
  omega

/-- A grant adds to the counter modulo `2 ^ 64`. -/
theorem Inv.get_step_addGuarantees {s : Account} (h : Inv s) (amount : U64) :
    (s.step (M := M) (.addGuarantees amount)).inner.guarantees.get =
      (s.inner.guarantees.get + amount.val) % 2 ^ 64 := by
  obtain ⟨current, hlimited, -⟩ := h.counter
  show (s.inner.addGuarantees amount).guarantees.get = _
  rw [guarantees_addGuarantees, hlimited]
  exact Guarantees.get_add current amount

/-- The balance stays a 64-bit number when no grant overflows the counter. -/
theorem Inv.balance_step {s : Account} (h : Inv s) (op : Op M)
    (hlt : s.issued - s.used < 2 ^ 64)
    (hop : ∀ amount, op = .addGuarantees amount → s.inner.guarantees.get + amount.val < 2 ^ 64) :
    (s.step op).issued - (s.step op).used < 2 ^ 64 := by
  have hget := (h.exact hlt).1
  have hle := h.used_le
  cases op with
  | addGuarantees amount =>
      have := hop amount rfl
      show s.issued + amount.val - (s.used + 0) < 2 ^ 64
      omega
  | close => exact hlt
  | write bytes waker =>
      show s.issued + 0 - (s.used + s.inner.accepted (.write (M := M) bytes waker)) < 2 ^ 64
      omega
  | readBytes waker => exact hlt
  | send item waker =>
      show s.issued + 0 - (s.used + s.inner.accepted (.send item waker)) < 2 ^ 64
      omega
  | recv waker => exact hlt

theorem balance_lt (maxBufferSize : Nat) (ops : List (Op M))
    (hops : ∀ k amount, ops[k]? = some (.addGuarantees amount) →
      ((start maxBufferSize).run (ops.take k)).inner.guarantees.get + amount.val < 2 ^ 64)
    (k : Nat) :
    ((start maxBufferSize).run (ops.take k)).issued -
      ((start maxBufferSize).run (ops.take k)).used < 2 ^ 64 := by
  induction k with
  | zero =>
      show 0 - 0 < 2 ^ 64
      decide
  | succ k ih =>
      cases hop : ops[k]? with
      | none =>
          rw [List.take_add_one, hop]
          simpa using ih
      | some op =>
          rw [run_take_succ _ hop]
          refine ((inv_start maxBufferSize).run _).balance_step op ih ?_
          rintro amount rfl
          exact hops k amount hop

/-- **Guarantees.** At every point of a run what may still be sent is what was
granted less what was sent, and no grant reduces it, exactly when no grant
overflows the counter of the channel. -/
theorem exact_iff_no_overflow (maxBufferSize : Nat) (ops : List (Op M)) :
    (∀ k, Exact ((start maxBufferSize).run (ops.take k)) ∧
      ∀ amount, ops[k]? = some (.addGuarantees amount) →
        ((start maxBufferSize).run (ops.take k)).inner.guarantees.get ≤
          ((start maxBufferSize).run (ops.take (k + 1))).inner.guarantees.get) ↔
    ∀ k amount, ops[k]? = some (.addGuarantees amount) →
      ((start maxBufferSize).run (ops.take k)).inner.guarantees.get + amount.val < 2 ^ 64 := by
  have hinv : ∀ k, Inv ((start maxBufferSize).run (ops.take k)) :=
    fun k => (inv_start maxBufferSize).run _
  constructor
  · intro h k amount hop
    have hmono := (h k).2 amount hop
    rw [run_take_succ _ hop, (hinv k).get_step_addGuarantees] at hmono
    -- a wrapped sum is smaller than the counter was, since the grant is below `2 ^ 64`
    have hamount := amount.isLt
    have hget : ((start maxBufferSize).run (ops.take k)).inner.guarantees.get < 2 ^ 64 := by
      obtain ⟨current, hlimited, -⟩ := (hinv k).counter
      rw [hlimited]
      exact current.isLt
    omega
  · intro h k
    refine ⟨(hinv k).exact (balance_lt maxBufferSize ops h k), ?_⟩
    intro amount hop
    rw [run_take_succ _ hop, (hinv k).get_step_addGuarantees, Nat.mod_eq_of_lt (h k amount hop)]
    exact Nat.le_add_right _ _

/-- After the first grant of a session, of `2 ^ 64 - 1` bytes, a second grant of
five bytes leaves four. -/
theorem second_grant_wraps :
    ¬ ∀ (maxBufferSize : Nat) (ops : List (Op Message.Sample)) (k : Nat),
      Exact ((start maxBufferSize).run (ops.take k)) := by
  intro h
  have hexact := (h 65536 [.addGuarantees (2 ^ 64 - 1), .addGuarantees 5] 2).1
  have hget : ((start 65536).run (M := Message.Sample)
      [.addGuarantees (2 ^ 64 - 1), .addGuarantees 5]).inner.guarantees.get = 4 := by decide
  have hissued : min (2 ^ 64 - 1) (2 ^ 64 - 1 + 5 - 0) ≠ 4 := by decide
  exact hissued (hexact.symm.trans hget)

end Account

end Account

end Inner

end IrohWillow
