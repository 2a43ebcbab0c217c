import IrohWillow.Util.ChannelRuns

/-!
# Waking the tasks that wait on a channel

A task whose poll returned `Pending` is registered for the side it waits on:
writers wait for room, readers for bytes. Every operation either wakes all
tasks of a side or changes nothing that they wait for.
-/

namespace IrohWillow.Inner

variable {M : Type} [Postcard M]

/-- The task that polls. -/
def Op.waker : Op M → Option Waker
  | .addGuarantees _ => none
  | .close => none
  | .write _ waker => some waker
  | .readBytes waker => some waker
  | .send _ waker => some waker
  | .recv waker => some waker

/-- The tasks that are woken when the channel goes from one state to another:
wakers leave their list only by being woken. -/
def woken (c c' : Inner) : List Waker :=
  c.writeWakers.filter (· ∉ c'.writeWakers) ++ c.readWakers.filter (· ∉ c'.readWakers)

/-- The state after a list of operations. -/
def applyAll (c : Inner) (ops : List (Op M)) : Inner := ops.foldl apply c

/-- The tasks that a list of operations wakes. -/
def wokenAlong : Inner → List (Op M) → List Waker
  | _, [] => []
  | c, op :: rest => c.woken (c.apply op) ++ wokenAlong (c.apply op) rest

/-! ## What a parked task waits for -/

/-- What the poll waits for has not come. -/
def Blocked (c : Inner) : Op M → Prop
  | .addGuarantees _ => False
  | .close => False
  | .write _ _ => c.isClosed = false ∧ c.remainingWriteCapacity = 0
  | .readBytes _ => c.isClosed = false ∧ c.buf = []
  | .send item _ => c.isClosed = false ∧ c.remainingWriteCapacity < (Encoder.encode item).length
  | .recv _ => c.isClosed = false ∧ Decoder.decodeFrom (T := M) c.buf = .ok .needMoreData

theorem parks_iff_blocked (c : Inner) (op : Op M) : c.Parks op ↔ c.Blocked op := by
  cases op with
  | addGuarantees amount => exact Iff.rfl
  | close => exact Iff.rfl
  | write bytes waker =>
      simp only [Parks, Blocked]
      rcases c.pollWrite_cases bytes waker with ⟨hc, h⟩ | ⟨hc, hcap, h⟩ | ⟨hc, hcap, len, -, h⟩
      · simp [h, Poll.isPending, hc]
      · simp [h, Poll.isPending, hc, hcap]
      · simp [h, Poll.isPending, hcap.ne']
  | readBytes waker =>
      simp only [Parks, Blocked]
      rcases c.pollReadBytes_cases waker with ⟨hb, h⟩ | ⟨hb, hc, h⟩ | ⟨hb, hc, h⟩
      · simp [h, Poll.isPending, hb]
      · simp [h, Poll.isPending, hc]
      · simp [h, Poll.isPending, hc, hb]
  | send item waker =>
      simp only [Parks, Blocked]
      rcases c.pollSendMessage_eq item waker with ⟨hc, h⟩ | ⟨hc, hcap, h⟩ | ⟨hc, hcap, h⟩
      · simp [h, Poll.isPending, hc]
      · simp [h, Poll.isPending, hc, hcap]
      · simp [h, Poll.isPending, hcap]
  | recv waker =>
      simp only [Parks, Blocked]
      rcases c.pollRecvMessage_cases (M := M) waker with
        ⟨hc, -, h⟩ | ⟨e, hd, h⟩ | ⟨hc, -, -, h⟩ | ⟨hc, hd, h⟩ | ⟨item, consumed, hd, h⟩
      · simp [h, Poll.isPending, hc]
      · simp [h, Poll.isPending, hd]
      · simp [h, Poll.isPending, hc]
      · simp [h, Poll.isPending, hc, hd]
      · simp [h, Poll.isPending, hd]

/-- The task of the poll is registered. -/
def Registered (c : Inner) : Op M → Prop
  | .addGuarantees _ => False
  | .close => False
  | .write _ waker => waker ∈ c.writeWakers
  | .readBytes waker => waker ∈ c.readWakers
  | .send _ waker => waker ∈ c.writeWakers
  | .recv waker => waker ∈ c.readWakers

/-- A parked task is registered, and nothing it waits for has changed. -/
theorem Parks.registered {c : Inner} {op : Op M} (h : c.Parks op) :
    (c.apply op).Blocked op ∧ (c.apply op).Registered op := by
  have hblocked := (c.parks_iff_blocked op).mp h
  cases op with
  | addGuarantees amount => exact h.elim
  | close => exact h.elim
  | write bytes waker =>
      rcases c.pollWrite_cases bytes waker with ⟨-, heq⟩ | ⟨-, -, heq⟩ | ⟨-, -, len, -, heq⟩
      · simp [Parks, heq, Poll.isPending] at h
      · simp only [apply, heq]
        exact ⟨hblocked, by simp [Registered]⟩
      · simp [Parks, heq, Poll.isPending] at h
  | readBytes waker =>
      rcases c.pollReadBytes_cases waker with ⟨-, heq⟩ | ⟨-, -, heq⟩ | ⟨-, -, heq⟩
      · simp [Parks, heq, Poll.isPending] at h
      · simp [Parks, heq, Poll.isPending] at h
      · simp only [apply, heq]
        exact ⟨hblocked, by simp [Registered]⟩
  | send item waker =>
      rcases c.pollSendMessage_eq item waker with ⟨-, heq⟩ | ⟨-, -, heq⟩ | ⟨-, -, heq⟩
      · simp [Parks, heq, Poll.isPending] at h
      · simp only [apply, heq]
        exact ⟨hblocked, by simp [Registered]⟩
      · simp [Parks, heq, Poll.isPending] at h
  | recv waker =>
      rcases c.pollRecvMessage_cases (M := M) waker with
        ⟨-, -, heq⟩ | ⟨e, -, heq⟩ | ⟨-, -, -, heq⟩ | ⟨-, -, heq⟩ | ⟨item, consumed, -, heq⟩
      · simp [Parks, heq, Poll.isPending] at h
      · simp [Parks, heq, Poll.isPending] at h
      · simp [Parks, heq, Poll.isPending] at h
      · simp only [apply, heq]
        exact ⟨hblocked, by simp [Registered]⟩
      · simp [Parks, heq, Poll.isPending] at h

/-! ## What one operation does to a side -/

/-- Nothing that writers wait for has come, and they are still registered. -/
structure WritersWait (c c' : Inner) : Prop where
  wakers : c.writeWakers ⊆ c'.writeWakers
  isClosed : c'.isClosed = c.isClosed
  capacity : c'.remainingWriteCapacity ≤ c.remainingWriteCapacity

theorem WritersWait.refl (c : Inner) : WritersWait c c := ⟨List.Subset.refl _, rfl, le_refl _⟩

/-- More bytes and fewer guarantees leave less room. -/
theorem remainingWriteCapacity_le (c : Inner) {bytes : List Byte} {amount : Nat}
    (h : amount ≤ c.remainingWriteCapacity) (readers : List Waker) :
    ({ c with
      buf := c.buf ++ bytes
      guarantees := c.guarantees.use amount
      readWakers := readers } : Inner).remainingWriteCapacity ≤ c.remainingWriteCapacity := by
  have huse := c.guarantees.get_use_le (h.trans (min_le_right _ _))
  apply min_le_min
  · show c.maxBufferSize - (c.buf ++ bytes).length ≤ c.maxBufferSize - c.buf.length
    rw [List.length_append]
    omega
  · exact huse

/-- An operation wakes all writers or leaves them waiting. -/
theorem apply_writers (c : Inner) (op : Op M) :
    (c.apply op).writeWakers = [] ∨ WritersWait c (c.apply op) := by
  cases op with
  | addGuarantees amount =>
      simp only [apply, addGuarantees]
      split
      · exact Or.inl rfl
      · rename_i hcap
        exact Or.inr ⟨List.Subset.refl _, rfl, not_lt.mp hcap⟩
  | close => exact Or.inl rfl
  | write bytes waker =>
      simp only [apply]
      rcases c.pollWrite_cases bytes waker with ⟨-, h⟩ | ⟨-, -, h⟩ | ⟨-, -, len, hlen, h⟩
      · rw [h]
        exact Or.inr (.refl c)
      · rw [h]
        exact Or.inr ⟨List.subset_append_left _ _, rfl, le_refl _⟩
      · rw [h]
        refine Or.inr ⟨List.Subset.refl _, rfl, ?_⟩
        -- bytes that are written only take capacity
        exact c.remainingWriteCapacity_le (by omega) []
  | readBytes waker =>
      simp only [apply]
      rcases c.pollReadBytes_cases waker with ⟨-, h⟩ | ⟨-, -, h⟩ | ⟨-, -, h⟩
      · rw [h]
        exact Or.inl rfl
      · rw [h]
        exact Or.inr (.refl c)
      · rw [h]
        exact Or.inr ⟨List.Subset.refl _, rfl, le_refl _⟩
  | send item waker =>
      simp only [apply]
      rcases c.pollSendMessage_eq item waker with ⟨-, h⟩ | ⟨-, -, h⟩ | ⟨-, hlen, h⟩
      · rw [h]
        exact Or.inr (.refl c)
      · rw [h]
        exact Or.inr ⟨List.subset_append_left _ _, rfl, le_refl _⟩
      · rw [h]
        exact Or.inr ⟨List.Subset.refl _, rfl, c.remainingWriteCapacity_le hlen []⟩
  | recv waker =>
      simp only [apply]
      rcases c.pollRecvMessage_cases (M := M) waker with
        ⟨-, -, h⟩ | ⟨e, -, h⟩ | ⟨-, -, -, h⟩ | ⟨-, -, h⟩ | ⟨item, consumed, -, h⟩
      · rw [h]
        exact Or.inr (.refl c)
      · rw [h]
        exact Or.inr (.refl c)
      · rw [h]
        exact Or.inr (.refl c)
      · rw [h]
        exact Or.inr ⟨List.Subset.refl _, rfl, le_refl _⟩
      · rw [h]
        exact Or.inl rfl

/-- No bytes have come that readers wait for, and they are still registered.
Bytes go away only all at once, or as a whole message. -/
structure ReadersWait (M : Type) [Postcard M] (c c' : Inner) : Prop where
  wakers : c.readWakers ⊆ c'.readWakers
  isClosed : c'.isClosed = c.isClosed
  buf : c'.buf = c.buf ∨ c'.buf = [] ∨
    Decoder.decodeFrom (T := M) c.buf ≠ .ok .needMoreData

theorem ReadersWait.refl (c : Inner) : ReadersWait M c c :=
  ⟨List.Subset.refl _, rfl, Or.inl rfl⟩

/-- An operation wakes all readers or leaves them waiting. -/
theorem apply_readers (c : Inner) (op : Op M) :
    (c.apply op).readWakers = [] ∨ ReadersWait M c (c.apply op) := by
  cases op with
  | addGuarantees amount =>
      simp only [apply, addGuarantees]
      split
      · exact Or.inr ⟨List.Subset.refl _, rfl, Or.inl rfl⟩
      · exact Or.inr ⟨List.Subset.refl _, rfl, Or.inl rfl⟩
  | close => exact Or.inl rfl
  | write bytes waker =>
      simp only [apply]
      rcases c.pollWrite_cases bytes waker with ⟨-, h⟩ | ⟨-, -, h⟩ | ⟨-, -, len, -, h⟩
      · rw [h]
        exact Or.inr (.refl c)
      · rw [h]
        exact Or.inr ⟨List.Subset.refl _, rfl, Or.inl rfl⟩
      · rw [h]
        exact Or.inl rfl
  | readBytes waker =>
      simp only [apply]
      rcases c.pollReadBytes_cases waker with ⟨-, h⟩ | ⟨-, -, h⟩ | ⟨-, -, h⟩
      · rw [h]
        exact Or.inr ⟨List.Subset.refl _, rfl, Or.inr (Or.inl rfl)⟩
      · rw [h]
        exact Or.inr (.refl c)
      · rw [h]
        exact Or.inr ⟨List.subset_append_left _ _, rfl, Or.inl rfl⟩
  | send item waker =>
      simp only [apply]
      rcases c.pollSendMessage_eq item waker with ⟨-, h⟩ | ⟨-, -, h⟩ | ⟨-, -, h⟩
      · rw [h]
        exact Or.inr (.refl c)
      · rw [h]
        exact Or.inr ⟨List.Subset.refl _, rfl, Or.inl rfl⟩
      · rw [h]
        exact Or.inl rfl
  | recv waker =>
      simp only [apply]
      rcases c.pollRecvMessage_cases (M := M) waker with
        ⟨-, -, h⟩ | ⟨e, -, h⟩ | ⟨-, -, -, h⟩ | ⟨-, -, h⟩ | ⟨item, consumed, hd, h⟩
      · rw [h]
        exact Or.inr (.refl c)
      · rw [h]
        exact Or.inr (.refl c)
      · rw [h]
        exact Or.inr (.refl c)
      · rw [h]
        exact Or.inr ⟨List.subset_append_left _ _, rfl, Or.inl rfl⟩
      · rw [h]
        -- a whole message was in the buffer, so nobody was waiting for more
        refine Or.inr ⟨List.Subset.refl _, rfl, Or.inr (Or.inr ?_)⟩
        rw [hd]
        simp

/-! ## No wake-up is lost -/

theorem ReadersWait.blocked_recv {c c' : Inner} (h : ReadersWait M c c')
    (hneed : Decoder.decodeFrom (T := M) c.buf = .ok .needMoreData) :
    Decoder.decodeFrom (T := M) c'.buf = .ok .needMoreData := by
  rcases h.buf with hbuf | hbuf | hbuf
  · rw [hbuf]
    exact hneed
  · rw [hbuf]
    rfl
  · exact absurd hneed hbuf

theorem mem_woken_writer {c c' : Inner} {waker : Waker} (h : waker ∈ c.writeWakers)
    (hempty : c'.writeWakers = []) : waker ∈ c.woken c' := by
  apply List.mem_append_left
  simpa [hempty] using h

theorem mem_woken_reader {c c' : Inner} {waker : Waker} (h : waker ∈ c.readWakers)
    (hempty : c'.readWakers = []) : waker ∈ c.woken c' := by
  apply List.mem_append_right
  simpa [hempty] using h

/-- One operation wakes a waiting task, or leaves it waiting. -/
theorem wait_step {c : Inner} {op : Op M} (hblocked : c.Blocked op) (hreg : c.Registered op)
    (op' : Op M) :
    (∃ waker, op.waker = some waker ∧ waker ∈ c.woken (c.apply op')) ∨
      ((c.apply op').Blocked op ∧ (c.apply op').Registered op) := by
  cases op with
  | addGuarantees amount => exact hblocked.elim
  | close => exact hblocked.elim
  | write bytes waker =>
      rcases c.apply_writers op' with hempty | hwait
      · exact Or.inl ⟨waker, rfl, mem_woken_writer hreg hempty⟩
      · refine Or.inr ⟨⟨hwait.isClosed.trans hblocked.1, ?_⟩, hwait.wakers hreg⟩
        exact Nat.le_zero.mp (hblocked.2 ▸ hwait.capacity)
  | send item waker =>
      rcases c.apply_writers op' with hempty | hwait
      · exact Or.inl ⟨waker, rfl, mem_woken_writer hreg hempty⟩
      · refine Or.inr ⟨⟨hwait.isClosed.trans hblocked.1, ?_⟩, hwait.wakers hreg⟩
        exact hwait.capacity.trans_lt hblocked.2
  | readBytes waker =>
      rcases c.apply_readers op' with hempty | hwait
      · exact Or.inl ⟨waker, rfl, mem_woken_reader hreg hempty⟩
      · refine Or.inr ⟨⟨hwait.isClosed.trans hblocked.1, ?_⟩, hwait.wakers hreg⟩
        rcases hwait.buf with hbuf | hbuf | hbuf
        · exact hbuf.trans hblocked.2
        · exact hbuf
        · rw [hblocked.2] at hbuf
          exact absurd rfl hbuf
  | recv waker =>
      rcases c.apply_readers op' with hempty | hwait
      · exact Or.inl ⟨waker, rfl, mem_woken_reader hreg hempty⟩
      · exact Or.inr ⟨⟨hwait.isClosed.trans hblocked.1, hwait.blocked_recv hblocked.2⟩,
          hwait.wakers hreg⟩

/-- A list of operations wakes a waiting task, or leaves it waiting. -/
theorem wait_run {c : Inner} {op : Op M} (hblocked : c.Blocked op) (hreg : c.Registered op)
    (ops : List (Op M)) :
    (∃ waker, op.waker = some waker ∧ waker ∈ c.wokenAlong ops) ∨
      (c.applyAll ops).Blocked op := by
  induction ops generalizing c with
  | nil => exact Or.inr hblocked
  | cons op' rest ih =>
      rcases wait_step hblocked hreg op' with ⟨waker, hwaker, hmem⟩ | ⟨hblocked', hreg'⟩
      · exact Or.inl ⟨waker, hwaker, List.mem_append_left _ hmem⟩
      · rcases ih hblocked' hreg' with ⟨waker, hwaker, hmem⟩ | hrest
        · exact Or.inl ⟨waker, hwaker, List.mem_append_right _ hmem⟩
        · exact Or.inr hrest

/-- **No lost wake-up.** When a poll returned `Pending`, and after some more
operations the same poll would return something, one of these operations has
woken its task. -/
theorem no_lost_wakeup {c : Inner} {op : Op M} (hparks : c.Parks op) (ops : List (Op M))
    (hready : ¬ ((c.apply op).applyAll ops).Parks op) :
    ∃ waker, op.waker = some waker ∧ waker ∈ (c.apply op).wokenAlong ops := by
  obtain ⟨hblocked, hreg⟩ := hparks.registered
  rcases wait_run hblocked hreg ops with hwoken | hstill
  · exact hwoken
  · exact absurd ((parks_iff_blocked _ op).mpr hstill) hready

/-- A sender that waits for guarantees is woken by the grant. -/
theorem no_lost_wakeup_grant :
    ∃ waker, (Op.send (Message.Sample.mk true) 7).waker = some waker ∧
      waker ∈ (Inner.apply { maxBufferSize := 64, guarantees := .limited 0 }
        (Op.send (Message.Sample.mk true) 7)).wokenAlong
          [Op.recv (M := Message.Sample) 8, Op.addGuarantees 100] :=
  no_lost_wakeup (by decide) _ (by decide)

end IrohWillow.Inner
