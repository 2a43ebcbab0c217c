import IrohWillow.Lib.Transition
import IrohWillow.Util.Channel

/-!
# The chunked pipe

`chunked_pipe` of `util/pipe.rs`: a buffer of `chunk_size` bytes between a
writer and a reader, through which a payload is cut into chunks. The writer
fills the buffer, in a loop over what it still has to write; the reader takes
the buffer when it is full, or when the pipe is closed. Each side has room for
one waker.

A run is any interleaving of the polls of both sides, with any writes, until
the writer is dropped. `Lossless` is what holds in each of its states.
-/

namespace IrohWillow

/-- `Shared`. -/
structure Shared where
  buf : List Byte := []
  chunkSize : Nat
  readWaker : Option Waker := none
  writeWaker : Option Waker := none
  closed : Bool := false
  deriving DecidableEq

namespace Shared

/-- `Shared::poll_write`, with the wakers that it wakes; `none` when
`chunk_size - buf.len()` underflows. -/
def pollWrite (s : Shared) (data : List Byte) (waker : Waker) :
    Option (Poll (Except IoError Nat) × Shared × List Waker) :=
  if s.closed then some (.ready (.error .brokenPipe), s, [])
  else if s.chunkSize < s.buf.length then none
  else
    let remaining := s.chunkSize - s.buf.length
    let amount := min data.length remaining
    if 0 < amount then
      some (.ready (.ok amount), { s with buf := s.buf ++ data.take amount, readWaker := none },
        s.readWaker.toList)
    else some (.pending, { s with writeWaker := some waker }, [])

/-- `Shared::poll_next`, with the wakers that it wakes. -/
def pollNext (s : Shared) (waker : Waker) :
    Poll (Option (List Byte)) × Shared × List Waker :=
  if s.buf.length = s.chunkSize then
    (.ready (some s.buf), { s with buf := [], writeWaker := none }, s.writeWaker.toList)
  else if s.closed ∧ s.buf ≠ [] then (.ready (some s.buf), { s with buf := [] }, [])
  else if s.closed then (.ready none, s, [])
  else (.pending, { s with readWaker := some waker }, [])

/-- `Shared::close`, with the wakers that it wakes. -/
def close (s : Shared) : Shared × List Waker :=
  ({ s with closed := true, readWaker := none, writeWaker := none },
    s.readWaker.toList ++ s.writeWaker.toList)

variable {s : Shared}

/-- A poll of an open pipe for writing takes some bytes or finds it full. -/
theorem pollWrite_cases (hclosed : s.closed = false) (hfits : s.buf.length ≤ s.chunkSize)
    {data : List Byte} (hdata : data ≠ []) (waker : Waker) :
    (s.buf.length = s.chunkSize ∧
        s.pollWrite data waker = some (.pending, { s with writeWaker := some waker }, [])) ∨
      ∃ amount, 0 < amount ∧ s.buf.length < s.chunkSize ∧ amount ≤ data.length ∧
        s.buf.length + amount ≤ s.chunkSize ∧
        s.pollWrite data waker = some (.ready (.ok amount),
          { s with buf := s.buf ++ data.take amount, readWaker := none }, s.readWaker.toList) := by
  have hlen : 0 < data.length := List.length_pos_iff.mpr hdata
  have hopen : ¬ (s.closed = true) := by rw [hclosed]; simp
  unfold pollWrite
  rw [if_neg hopen, if_neg (not_lt.mpr hfits)]
  dsimp only
  by_cases hfull : s.buf.length = s.chunkSize
  · refine Or.inl ⟨hfull, if_neg ?_⟩
    omega
  · have hamount : 0 < min data.length (s.chunkSize - s.buf.length) := by omega
    refine Or.inr ⟨_, hamount, by omega, by omega, by omega, if_pos hamount⟩

/-- Nothing can be written to a full pipe. -/
theorem pollWrite_of_full (hclosed : s.closed = false) (hfull : s.buf.length = s.chunkSize)
    (data : List Byte) (waker : Waker) :
    s.pollWrite data waker = some (.pending, { s with writeWaker := some waker }, []) := by
  have hopen : ¬ (s.closed = true) := by rw [hclosed]; simp
  unfold pollWrite
  rw [if_neg hopen, if_neg (not_lt.mpr hfull.le)]
  dsimp only
  rw [if_neg (by omega)]

/-- `chunk_size - buf.len()` does not underflow. -/
theorem pollWrite_ne_none (hfits : s.buf.length ≤ s.chunkSize) (data : List Byte)
    (waker : Waker) : s.pollWrite data waker ≠ none := by
  unfold pollWrite
  rw [if_neg (not_lt.mpr hfits)]
  dsimp only
  split
  · simp
  · split <;> simp

/-- A poll of an open pipe for reading takes a full buffer or waits. -/
theorem pollNext_of_open (hclosed : s.closed = false) (waker : Waker) :
    (s.buf.length = s.chunkSize ∧ s.pollNext waker =
        (.ready (some s.buf), { s with buf := [], writeWaker := none }, s.writeWaker.toList)) ∨
      (s.buf.length ≠ s.chunkSize ∧
        s.pollNext waker = (.pending, { s with readWaker := some waker }, [])) := by
  unfold pollNext
  by_cases hfull : s.buf.length = s.chunkSize
  · exact Or.inl ⟨hfull, if_pos hfull⟩
  · refine Or.inr ⟨hfull, ?_⟩
    rw [if_neg hfull, if_neg (by simp [hclosed]), if_neg (by simp [hclosed])]

/-- A poll of a closed pipe takes what is there, and the second one ends. -/
theorem pollNext_of_closed (hclosed : s.closed = true) (hpos : 0 < s.chunkSize) (waker : Waker) :
    (s.buf ≠ [] ∧ ∃ s' woken, s.pollNext waker = (.ready (some s.buf), s', woken) ∧
        s'.buf = [] ∧ s'.closed = true ∧ s'.chunkSize = s.chunkSize) ∨
      (s.buf = [] ∧ s.pollNext waker = (.ready none, s, [])) := by
  unfold pollNext
  by_cases hbuf : s.buf = []
  · have hfull : ¬ s.buf.length = s.chunkSize := by
      rw [hbuf, List.length_nil]
      omega
    refine Or.inr ⟨hbuf, ?_⟩
    rw [if_neg hfull, if_neg (fun h => h.2 hbuf), if_pos hclosed]
  · refine Or.inl ⟨hbuf, ?_⟩
    by_cases hfull : s.buf.length = s.chunkSize
    · exact ⟨_, _, if_pos hfull, rfl, hclosed, rfl⟩
    · rw [if_neg hfull, if_pos ⟨hclosed, hbuf⟩]
      exact ⟨_, _, rfl, rfl, hclosed, rfl⟩

end Shared

/-! ## Runs -/

/-- A pipe, what the writer still has to write of its present call, and what has
happened: the bytes of all calls, the chunks the reader has got, whether its
stream has ended, the last pending poll of each side that was not woken, and
whether a call has failed or panicked. -/
structure PipeRun where
  shared : Shared
  rest : List Byte := []
  written : List Byte := []
  chunks : List (List Byte) := []
  ended : Bool := false
  writerParked : Option Waker := none
  readerParked : Option Waker := none
  failed : Bool := false
  deriving DecidableEq

namespace PipeRun

/-- `chunked_pipe`. -/
def start (chunkSize : Nat) : PipeRun := { shared := { chunkSize := chunkSize } }

/-- What the two sides do. -/
inductive Action where
  /-- `PipeWriter::write` is called. -/
  | write (data : List Byte)
  | pollWrite (waker : Waker)
  | pollNext (waker : Waker)
  | dropWriter

/-- The tasks are woken. -/
def wake (s : PipeRun) (woken : List Waker) : PipeRun :=
  { s with
    writerParked := s.writerParked.filter (· ∉ woken)
    readerParked := s.readerParked.filter (· ∉ woken) }

/-- One step. The writer polls while it has something to write, and is dropped
when it has not. -/
def step (s : PipeRun) : Action → Option PipeRun
  | .write data =>
      if s.rest = [] ∧ s.shared.closed = false then
        some { s with rest := data, written := s.written ++ data }
      else none
  | .pollWrite waker =>
      if s.rest = [] then none
      else
        match s.shared.pollWrite s.rest waker with
        | none => some { s with failed := true }
        | some (.pending, shared, woken) =>
            some { ({ s with shared := shared }).wake woken with writerParked := some waker }
        | some (.ready (.ok amount), shared, woken) =>
            some { ({ s with shared := shared }).wake woken with
              rest := s.rest.drop amount
              writerParked := none }
        | some (.ready (.error _), _, _) => some { s with failed := true }
  | .pollNext waker =>
      match s.shared.pollNext waker with
      | (.pending, shared, woken) =>
          some { ({ s with shared := shared }).wake woken with readerParked := some waker }
      | (.ready (some chunk), shared, woken) =>
          some { ({ s with shared := shared }).wake woken with
            chunks := s.chunks ++ [chunk]
            readerParked := none }
      | (.ready none, shared, woken) =>
          some { ({ s with shared := shared }).wake woken with
            ended := true
            readerParked := none }
  | .dropWriter =>
      if s.rest = [] ∧ s.shared.closed = false then
        some (({ s with shared := s.shared.close.1 }).wake s.shared.close.2)
      else none

/-- The chunks are cut from the bytes in order. All are full, but for one at the
end of a closed pipe. -/
structure Cut (s : PipeRun) : Prop where
  bytes : s.chunks.flatten ++ s.shared.buf ++ s.rest = s.written
  ne_nil : ∀ c ∈ s.chunks, c ≠ []
  full : ∀ c ∈ s.chunks.dropLast, c.length = s.shared.chunkSize
  last : (∀ c ∈ s.chunks, c.length = s.shared.chunkSize) ∨
    (s.shared.closed = true ∧ s.shared.buf = [])
  le : ∀ c ∈ s.chunks, c.length ≤ s.shared.chunkSize

/-- A parked writer is registered and the buffer is full; a parked reader is
registered and it is not. -/
structure Waits (s : PipeRun) : Prop where
  writer : ∀ waker, s.writerParked = some waker → s.shared.writeWaker = some waker ∧
    s.shared.closed = false ∧ s.shared.buf.length = s.shared.chunkSize
  reader : ∀ waker, s.readerParked = some waker → s.shared.readWaker = some waker ∧
    s.shared.closed = false ∧ s.shared.buf.length < s.shared.chunkSize

/-- The invariant of a run. -/
structure Inv (chunkSize : Nat) (s : PipeRun) : Prop where
  chunkSize_eq : s.shared.chunkSize = chunkSize
  failed : s.failed = false
  fits : s.shared.buf.length ≤ s.shared.chunkSize
  rest_nil : s.shared.closed = true → s.rest = []
  ended : s.ended = true → s.shared.closed = true ∧ s.shared.buf = []
  cut : s.Cut
  waits : s.Waits

/-! ## Every step keeps the invariant -/

variable {chunkSize : Nat} {s : PipeRun}

theorem inv_start (chunkSize : Nat) : Inv chunkSize (start chunkSize) where
  chunkSize_eq := rfl
  failed := rfl
  fits := Nat.zero_le _
  rest_nil := fun _ => rfl
  ended := fun h => by cases h
  cut :=
    { bytes := rfl
      ne_nil := fun _ h => by cases h
      full := fun _ h => by cases h
      last := Or.inl fun _ h => by cases h
      le := fun _ h => by cases h }
  waits :=
    { writer := fun _ h => by cases h
      reader := fun _ h => by cases h }

theorem writerParked_wake {woken : List Waker} {waker : Waker}
    (h : (s.wake woken).writerParked = some waker) :
    s.writerParked = some waker ∧ waker ∉ woken := by
  obtain ⟨hparked, hnot⟩ := Option.filter_eq_some_iff.mp h
  exact ⟨hparked, of_decide_eq_true hnot⟩

theorem readerParked_wake {woken : List Waker} {waker : Waker}
    (h : (s.wake woken).readerParked = some waker) :
    s.readerParked = some waker ∧ waker ∉ woken := by
  obtain ⟨hparked, hnot⟩ := Option.filter_eq_some_iff.mp h
  exact ⟨hparked, of_decide_eq_true hnot⟩

/-- Whoever is parked as a writer is woken through the slot of the writer. -/
theorem Waits.not_writerParked (h : s.Waits) {woken : List Waker}
    (hslot : ∀ waker ∈ s.shared.writeWaker, waker ∈ woken) (waker : Waker) :
    (s.wake woken).writerParked ≠ some waker := by
  intro hparked
  obtain ⟨hold, hnot⟩ := writerParked_wake hparked
  exact hnot (hslot waker (h.writer waker hold).1)

theorem Waits.not_readerParked (h : s.Waits) {woken : List Waker}
    (hslot : ∀ waker ∈ s.shared.readWaker, waker ∈ woken) (waker : Waker) :
    (s.wake woken).readerParked ≠ some waker := by
  intro hparked
  obtain ⟨hold, hnot⟩ := readerParked_wake hparked
  exact hnot (hslot waker (h.reader waker hold).1)

theorem Inv.write (h : Inv chunkSize s) (data : List Byte) (hrest : s.rest = [])
    (hclosed : s.shared.closed = false) :
    Inv chunkSize { s with rest := data, written := s.written ++ data } where
  chunkSize_eq := h.chunkSize_eq
  failed := h.failed
  fits := h.fits
  rest_nil := fun hc => by rw [hclosed] at hc; cases hc
  ended := h.ended
  cut :=
    { bytes := by
        have hbytes := h.cut.bytes
        rw [hrest, List.append_nil] at hbytes
        show s.chunks.flatten ++ s.shared.buf ++ data = s.written ++ data
        rw [hbytes]
      ne_nil := h.cut.ne_nil
      full := h.cut.full
      last := h.cut.last
      le := h.cut.le }
  waits := ⟨h.waits.writer, h.waits.reader⟩

/-- The writer finds the buffer full. -/
theorem Inv.parkWriter (h : Inv chunkSize s) (hclosed : s.shared.closed = false)
    (hfull : s.shared.buf.length = s.shared.chunkSize) (waker : Waker) :
    Inv chunkSize { ({ s with shared := { s.shared with writeWaker := some waker } }).wake [] with
      writerParked := some waker } where
  chunkSize_eq := h.chunkSize_eq
  failed := h.failed
  fits := h.fits
  rest_nil := h.rest_nil
  ended := h.ended
  cut := ⟨h.cut.bytes, h.cut.ne_nil, h.cut.full, h.cut.last, h.cut.le⟩
  waits :=
    { writer := fun _ hw => ⟨hw, hclosed, hfull⟩
      reader := fun w hw => h.waits.reader w (readerParked_wake hw).1 }

/-- The writer fills the buffer, and the reader is woken. -/
theorem Inv.fill (h : Inv chunkSize s) {amount : Nat} (hclosed : s.shared.closed = false)
    (hfits : s.shared.buf.length + amount ≤ s.shared.chunkSize) :
    Inv chunkSize { ({ s with
      shared := { s.shared with
        buf := s.shared.buf ++ s.rest.take amount
        readWaker := none } }).wake s.shared.readWaker.toList with
      rest := s.rest.drop amount
      writerParked := none } where
  chunkSize_eq := h.chunkSize_eq
  failed := h.failed
  fits := by
    show (s.shared.buf ++ s.rest.take amount).length ≤ s.shared.chunkSize
    have htake := List.length_take_le amount s.rest
    rw [List.length_append]
    omega
  rest_nil := fun hc => absurd (hclosed.symm.trans hc) Bool.false_ne_true
  ended := fun he => absurd (hclosed.symm.trans (h.ended he).1) Bool.false_ne_true
  cut :=
    { bytes := by
        have hbytes := h.cut.bytes
        show s.chunks.flatten ++ (s.shared.buf ++ s.rest.take amount) ++ s.rest.drop amount =
          s.written
        rw [← hbytes]
        simp only [List.append_assoc, List.take_append_drop]
      ne_nil := h.cut.ne_nil
      full := h.cut.full
      last := by
        rcases h.cut.last with hall | ⟨hc, -⟩
        · exact Or.inl hall
        · exact absurd (hclosed.symm.trans hc) Bool.false_ne_true
      le := h.cut.le }
  waits :=
    { writer := fun _ hw => by cases hw
      reader := fun w hw => by
        refine absurd hw (Waits.not_readerParked ⟨h.waits.writer, h.waits.reader⟩ ?_ w)
        exact fun _ hmem => Option.mem_toList.mpr hmem }

/-- The reader finds the pipe open and the buffer not full. -/
theorem Inv.parkReader (h : Inv chunkSize s) (hclosed : s.shared.closed = false)
    (hroom : s.shared.buf.length ≠ s.shared.chunkSize) (waker : Waker) :
    Inv chunkSize { ({ s with shared := { s.shared with readWaker := some waker } }).wake [] with
      readerParked := some waker } where
  chunkSize_eq := h.chunkSize_eq
  failed := h.failed
  fits := h.fits
  rest_nil := h.rest_nil
  ended := h.ended
  cut := ⟨h.cut.bytes, h.cut.ne_nil, h.cut.full, h.cut.last, h.cut.le⟩
  waits :=
    { writer := fun w hw => h.waits.writer w (writerParked_wake hw).1
      reader := fun _ hw => ⟨hw, hclosed, lt_of_le_of_ne h.fits hroom⟩ }

/-- The reader takes the buffer, as a full chunk or as the last one. -/
theorem Cut.take (h : s.Cut) (hbuf : s.shared.buf ≠ [])
    (hfits : s.shared.buf.length ≤ s.shared.chunkSize) (shared : Shared)
    (hempty : shared.buf = []) (hsize : shared.chunkSize = s.shared.chunkSize)
    (hlast : s.shared.buf.length = s.shared.chunkSize ∨ shared.closed = true)
    (woken : List Waker) :
    Cut { ({ s with shared := shared }).wake woken with
      chunks := s.chunks ++ [s.shared.buf]
      readerParked := none } := by
  have hall : ∀ c ∈ s.chunks, c.length = s.shared.chunkSize := by
    rcases h.last with hall | ⟨-, hnil⟩
    · exact hall
    · exact absurd hnil hbuf
  refine
    { bytes := ?_
      ne_nil := fun c hc => ?_
      full := fun c hc => ?_
      last := ?_
      le := fun c hc => ?_ }
  · show (s.chunks ++ [s.shared.buf]).flatten ++ shared.buf ++ s.rest = s.written
    rw [hempty, ← h.bytes]
    simp
  · rcases List.mem_append.mp hc with hold | hnew
    · exact h.ne_nil c hold
    · rw [List.mem_singleton.mp hnew]
      exact hbuf
  · show c.length = shared.chunkSize
    rw [List.dropLast_concat] at hc
    rw [hsize]
    exact hall c hc
  · rcases hlast with hfull | hclosed
    · refine Or.inl fun c hc => ?_
      show c.length = shared.chunkSize
      rw [hsize]
      rcases List.mem_append.mp hc with hold | hnew
      · exact hall c hold
      · rw [List.mem_singleton.mp hnew]
        exact hfull
    · exact Or.inr ⟨hclosed, hempty⟩
  · show c.length ≤ shared.chunkSize
    rw [hsize]
    rcases List.mem_append.mp hc with hold | hnew
    · exact h.le c hold
    · rw [List.mem_singleton.mp hnew]
      exact hfits

/-- The reader takes a full buffer of an open pipe, and the writer is woken. -/
theorem Inv.takeFull (h : Inv chunkSize s) (hpos : 0 < chunkSize)
    (hclosed : s.shared.closed = false) (hfull : s.shared.buf.length = s.shared.chunkSize) :
    Inv chunkSize { ({ s with
      shared := { s.shared with buf := [], writeWaker := none } }).wake
        s.shared.writeWaker.toList with
      chunks := s.chunks ++ [s.shared.buf]
      readerParked := none } where
  chunkSize_eq := h.chunkSize_eq
  failed := h.failed
  fits := Nat.zero_le _
  rest_nil := h.rest_nil
  ended := fun he => absurd (hclosed.symm.trans (h.ended he).1) Bool.false_ne_true
  cut := by
    have hbuf : s.shared.buf ≠ [] := by
      intro hnil
      rw [hnil, h.chunkSize_eq, List.length_nil] at hfull
      omega
    exact h.cut.take hbuf h.fits { s.shared with buf := [], writeWaker := none } rfl rfl
      (Or.inl hfull) _
  waits :=
    { writer := fun w hw => by
        refine absurd hw (Waits.not_writerParked (s := s) h.waits ?_ w)
        exact fun _ hmem => Option.mem_toList.mpr hmem
      reader := fun _ hr => by cases hr }

/-- Nobody is parked at a closed pipe. -/
theorem Waits.of_closed (h : s.Waits) (hclosed : s.shared.closed = true) :
    s.writerParked = none ∧ s.readerParked = none := by
  constructor
  · cases hw : s.writerParked with
    | none => rfl
    | some w => exact absurd ((h.writer w hw).2.1.symm.trans hclosed) Bool.false_ne_true
  · cases hr : s.readerParked with
    | none => rfl
    | some w => exact absurd ((h.reader w hr).2.1.symm.trans hclosed) Bool.false_ne_true

/-- The reader takes what is left in a closed pipe. -/
theorem Inv.takeLast (h : Inv chunkSize s) (hclosed : s.shared.closed = true)
    (hbuf : s.shared.buf ≠ []) {shared : Shared} (hempty : shared.buf = [])
    (hsize : shared.chunkSize = s.shared.chunkSize) (hshared : shared.closed = true)
    (woken : List Waker) :
    Inv chunkSize { ({ s with shared := shared }).wake woken with
      chunks := s.chunks ++ [s.shared.buf]
      readerParked := none } where
  chunkSize_eq := hsize.trans h.chunkSize_eq
  failed := h.failed
  fits := by
    show shared.buf.length ≤ shared.chunkSize
    rw [hempty]
    exact Nat.zero_le _
  rest_nil := fun _ => h.rest_nil hclosed
  ended := fun _ => ⟨hshared, hempty⟩
  cut := h.cut.take hbuf h.fits shared hempty hsize (Or.inr hshared) woken
  waits :=
    { writer := fun w hw => by
        have hnone := (h.waits.of_closed hclosed).1
        rw [(writerParked_wake hw).1] at hnone
        cases hnone
      reader := fun _ hr => by cases hr }

/-- The reader finds the closed pipe empty. -/
theorem Inv.finish (h : Inv chunkSize s) (hclosed : s.shared.closed = true)
    (hbuf : s.shared.buf = []) :
    Inv chunkSize { ({ s with shared := s.shared }).wake [] with
      ended := true
      readerParked := none } where
  chunkSize_eq := h.chunkSize_eq
  failed := h.failed
  fits := h.fits
  rest_nil := h.rest_nil
  ended := fun _ => ⟨hclosed, hbuf⟩
  cut := ⟨h.cut.bytes, h.cut.ne_nil, h.cut.full, h.cut.last, h.cut.le⟩
  waits :=
    { writer := fun w hw => h.waits.writer w (writerParked_wake hw).1
      reader := fun _ hr => by cases hr }

/-- The writer is dropped, and both sides are woken. -/
theorem Inv.dropWriter (h : Inv chunkSize s) (hrest : s.rest = [])
    (hclosed : s.shared.closed = false) :
    Inv chunkSize (({ s with shared := s.shared.close.1 }).wake s.shared.close.2) where
  chunkSize_eq := h.chunkSize_eq
  failed := h.failed
  fits := h.fits
  rest_nil := fun _ => hrest
  ended := fun he => absurd (hclosed.symm.trans (h.ended he).1) Bool.false_ne_true
  cut :=
    { bytes := h.cut.bytes
      ne_nil := h.cut.ne_nil
      full := h.cut.full
      last := by
        rcases h.cut.last with hall | ⟨hc, -⟩
        · exact Or.inl hall
        · exact absurd (hclosed.symm.trans hc) Bool.false_ne_true
      le := h.cut.le }
  waits :=
    { writer := fun w hw => by
        refine absurd hw (Waits.not_writerParked (s := s) h.waits ?_ w)
        exact fun _ hmem => List.mem_append_right _ (Option.mem_toList.mpr hmem)
      reader := fun w hw => by
        refine absurd hw (Waits.not_readerParked (s := s) h.waits ?_ w)
        exact fun _ hmem => List.mem_append_left _ (Option.mem_toList.mpr hmem) }

/-- Every step keeps the invariant. -/
theorem Inv.step (h : Inv chunkSize s) (hpos : 0 < chunkSize) {a : Action} {s' : PipeRun}
    (hstep : s.step a = some s') : Inv chunkSize s' := by
  cases a with
  | write data =>
      simp only [PipeRun.step] at hstep
      split at hstep
      · rename_i hidle
        obtain rfl := Option.some.inj hstep
        exact h.write data hidle.1 hidle.2
      · cases hstep
  | pollWrite waker =>
      simp only [PipeRun.step] at hstep
      by_cases hrest : s.rest = []
      · rw [if_pos hrest] at hstep
        cases hstep
      · rw [if_neg hrest] at hstep
        have hclosed : s.shared.closed = false := by
          rw [← Bool.not_eq_true]
          exact fun hc => hrest (h.rest_nil hc)
        rcases Shared.pollWrite_cases hclosed h.fits hrest waker with
          ⟨hfull, hpoll⟩ | ⟨amount, -, -, -, hfits, hpoll⟩
        · rw [hpoll] at hstep
          obtain rfl := Option.some.inj hstep
          exact h.parkWriter hclosed hfull waker
        · rw [hpoll] at hstep
          obtain rfl := Option.some.inj hstep
          exact h.fill hclosed hfits
  | pollNext waker =>
      simp only [PipeRun.step] at hstep
      cases hclosed : s.shared.closed with
      | false =>
          rcases Shared.pollNext_of_open hclosed waker with ⟨hfull, hpoll⟩ | ⟨hroom, hpoll⟩
          · rw [hpoll] at hstep
            obtain rfl := Option.some.inj hstep
            exact h.takeFull hpos hclosed hfull
          · rw [hpoll] at hstep
            obtain rfl := Option.some.inj hstep
            exact h.parkReader hclosed hroom waker
      | true =>
          have hsize : 0 < s.shared.chunkSize := h.chunkSize_eq ▸ hpos
          rcases Shared.pollNext_of_closed hclosed hsize waker with
            ⟨hbuf, shared, woken, hpoll, hempty, hshared, hsame⟩ | ⟨hbuf, hpoll⟩
          · rw [hpoll] at hstep
            obtain rfl := Option.some.inj hstep
            exact h.takeLast hclosed hbuf hempty hsame hshared woken
          · rw [hpoll] at hstep
            obtain rfl := Option.some.inj hstep
            exact h.finish hclosed hbuf
  | dropWriter =>
      simp only [PipeRun.step] at hstep
      split at hstep
      · rename_i hidle
        obtain rfl := Option.some.inj hstep
        exact h.dropWriter hidle.1 hidle.2
      · cases hstep

/-! ## What comes out -/

/-- What holds in every state of a run. -/
structure Lossless (s : PipeRun) : Prop where
  /-- Nothing underflows, and no write fails. -/
  not_failed : s.failed = false
  no_underflow : ∀ data waker, s.shared.pollWrite data waker ≠ none
  /-- The chunks are a beginning of what was written, and at the end all of it. -/
  bytes : s.chunks.flatten ++ s.shared.buf ++ s.rest = s.written
  complete : s.ended = true → s.chunks.flatten = s.written
  /-- Every chunk but the last is full, and none is empty. -/
  full : ∀ c ∈ s.chunks.dropLast, c.length = s.shared.chunkSize
  le : ∀ c ∈ s.chunks, c.length ≤ s.shared.chunkSize
  ne_nil : ∀ c ∈ s.chunks, c ≠ []
  full_of_open : s.shared.closed = false → ∀ c ∈ s.chunks, c.length = s.shared.chunkSize
  /-- When the writer has been dropped, the second poll at the latest ends the stream. -/
  ends : s.shared.closed = true → ∀ w w', ∃ s' s'', s.step (.pollNext w) = some s' ∧
    s'.step (.pollNext w') = some s'' ∧ s''.ended = true
  /-- A side that waits and was not woken is registered and has nothing to do. -/
  writer_waits : ∀ w, s.writerParked = some w → s.shared.writeWaker = some w ∧
    ∀ data w', s.shared.pollWrite data w' =
      some (.pending, { s.shared with writeWaker := some w' }, [])
  reader_waits : ∀ w, s.readerParked = some w → s.shared.readWaker = some w ∧
    ∀ w', s.shared.pollNext w' = (.pending, { s.shared with readWaker := some w' }, [])
  /-- The two sides never both wait while there is something to write. -/
  progress : s.rest ≠ [] → ¬ (s.writerParked.isSome = true ∧ s.readerParked.isSome = true)

/-- A poll of a closed pipe that is empty ends the stream. -/
theorem step_pollNext_of_empty (hclosed : s.shared.closed = true) (hbuf : s.shared.buf = [])
    (hpos : 0 < s.shared.chunkSize) (w : Waker) :
    ∃ s', s.step (.pollNext w) = some s' ∧ s'.ended = true ∧ s'.shared = s.shared := by
  rcases Shared.pollNext_of_closed hclosed hpos w with ⟨hne, -⟩ | ⟨-, hpoll⟩
  · exact absurd hbuf hne
  · simp only [PipeRun.step, hpoll]
    exact ⟨_, rfl, rfl, rfl⟩

theorem ends_of_closed (hclosed : s.shared.closed = true) (hpos : 0 < s.shared.chunkSize)
    (w w' : Waker) : ∃ s' s'', s.step (.pollNext w) = some s' ∧
      s'.step (.pollNext w') = some s'' ∧ s''.ended = true := by
  rcases Shared.pollNext_of_closed hclosed hpos w with
    ⟨-, shared, woken, hpoll, hempty, hshared, hsize⟩ | ⟨hbuf, -⟩
  · have hstep : s.step (.pollNext w) = some { ({ s with shared := shared }).wake woken with
        chunks := s.chunks ++ [s.shared.buf]
        readerParked := none } := by simp only [PipeRun.step, hpoll]
    obtain ⟨s'', hs'', hended, -⟩ := step_pollNext_of_empty (s :=
      { ({ s with shared := shared }).wake woken with
        chunks := s.chunks ++ [s.shared.buf]
        readerParked := none }) hshared hempty (hsize ▸ hpos) w'
    exact ⟨_, s'', hstep, hs'', hended⟩
  · obtain ⟨s', hs', -, hsame⟩ := step_pollNext_of_empty hclosed hbuf hpos w
    obtain ⟨s'', hs'', hended, -⟩ := step_pollNext_of_empty (s := s') (by rw [hsame]; exact hclosed)
      (by rw [hsame]; exact hbuf) (by rw [hsame]; exact hpos) w'
    exact ⟨s', s'', hs', hs'', hended⟩

theorem Inv.lossless (h : Inv chunkSize s) (hpos : 0 < chunkSize) : s.Lossless where
  not_failed := h.failed
  no_underflow := Shared.pollWrite_ne_none h.fits
  bytes := h.cut.bytes
  complete := fun hended => by
    obtain ⟨hclosed, hbuf⟩ := h.ended hended
    have hbytes := h.cut.bytes
    rw [hbuf, h.rest_nil hclosed, List.append_nil, List.append_nil] at hbytes
    exact hbytes
  full := h.cut.full
  le := h.cut.le
  ne_nil := h.cut.ne_nil
  full_of_open := fun hopen => by
    rcases h.cut.last with hall | ⟨hclosed, -⟩
    · exact hall
    · exact absurd (hopen.symm.trans hclosed) Bool.false_ne_true
  ends := fun hclosed => ends_of_closed hclosed (h.chunkSize_eq ▸ hpos)
  writer_waits := fun w hw => by
    obtain ⟨hslot, hopen, hfull⟩ := h.waits.writer w hw
    exact ⟨hslot, Shared.pollWrite_of_full hopen hfull⟩
  reader_waits := fun w hw => by
    obtain ⟨hslot, hopen, hroom⟩ := h.waits.reader w hw
    refine ⟨hslot, fun w' => ?_⟩
    rcases Shared.pollNext_of_open hopen w' with ⟨hfull, -⟩ | ⟨-, hpoll⟩
    · exact absurd hfull hroom.ne
    · exact hpoll
  progress := fun _ => by
    rintro ⟨hw, hr⟩
    -- the buffer would be full and not full
    obtain ⟨w, hw⟩ := Option.isSome_iff_exists.mp hw
    obtain ⟨r, hr⟩ := Option.isSome_iff_exists.mp hr
    exact absurd (h.waits.writer w hw).2.2 (h.waits.reader r hr).2.2.ne

/-- A pipe cuts what is written into chunks, whatever the interleaving of the
two sides: nothing is lost, only the last chunk may be short, the stream ends,
and no side waits for what is there. -/
theorem pipe_lossless (hpos : 0 < chunkSize)
    (hs : Transition.Reachable step (fun _ _ => True) (start chunkSize) s) : s.Lossless :=
  (hs.invariant (inv_start chunkSize) fun _ _ _ h _ hstep => h.step hpos hstep).lossless hpos

/-- Three bytes through a pipe of two: the writer waits for the reader, and the
last chunk is short. -/
def Sample.actions : List Action :=
  [.pollNext 7, .write [1, 2, 3], .pollWrite 8, .pollWrite 8, .pollNext 7, .pollWrite 8,
    .dropWriter, .pollNext 7, .pollNext 7]

theorem pipe_lossless_three : ∃ s, Transition.run step (start 2) Sample.actions = some s ∧
    s.Lossless ∧ s.chunks = [[1, 2], [3]] ∧ s.ended = true := by
  have hrun : ∃ s, Transition.run step (start 2) Sample.actions = some s ∧
      s.chunks = [[1, 2], [3]] ∧ s.ended = true := ⟨_, rfl, rfl, rfl⟩
  obtain ⟨s, hs, hchunks, hended⟩ := hrun
  have hpos : 0 < 2 := by decide
  exact ⟨s, hs, pipe_lossless hpos (Transition.Reachable.of_run_all hs), hchunks, hended⟩

end PipeRun

end IrohWillow
