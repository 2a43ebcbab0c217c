import IrohWillow.Session.RangeAccounting

/-!
# Reconciliation converges

Two honest reconcilers whose stores keep exactly the entries that no other
entry prunes. An entry that one of them held at the start, and that the other
one neither holds nor has an entry for that prunes it, is always pending in one
of four ways (`Pending`): it is on its way; a fingerprint of a set with the
entry is on its way to the peer that lacks it; a fingerprint of a set without
the entry is on its way to the peer that holds it; or the holder is asked for
all its entries. A peer that has completed the target has no message on its
way and all its ranges answered, so nothing is pending.
-/

namespace IrohWillow.Reconciler

/-! ## What messages say about an entry -/

/-- The entry is sent. -/
def Sends (l : List Sent) (e : Entry) : Prop :=
  ∃ x ∈ l, ∃ m, x.message = .sendEntry m ∧ m.entry = e

/-- All entries of a range with the entry are asked for. -/
def Asks (l : List Sent) (e : Entry) : Prop :=
  ∃ x ∈ l, ∃ m, x.message = .announceEntries m ∧ m.wantResponse = true ∧ m.range.IncludesEntry e

/-- The fingerprint of a range with the entry is sent, out of a set that has it
or lacks it. `F fp X` says that `fp` is a fingerprint of the set `X`. -/
def Compares (F : Fingerprint → Set Entry → Prop) (P : Set Entry → Prop) (l : List Sent)
    (e : Entry) : Prop :=
  ∃ x ∈ l, ∃ m X, x.message = .sendFingerprint m ∧ m.range.IncludesEntry e ∧
    F m.fingerprint X ∧ P X

variable {F : Fingerprint → Set Entry → Prop} {P : Set Entry → Prop} {l l' : List Sent}
  {e : Entry}

theorem Sends.mono (h : Sends l e) (hle : l ⊆ l') : Sends l' e := by
  obtain ⟨x, hx, hm⟩ := h
  exact ⟨x, hle hx, hm⟩

theorem Asks.mono (h : Asks l e) (hle : l ⊆ l') : Asks l' e := by
  obtain ⟨x, hx, hm⟩ := h
  exact ⟨x, hle hx, hm⟩

theorem Compares.mono (h : Compares F P l e) (hle : l ⊆ l') : Compares F P l' e := by
  obtain ⟨x, hx, hm⟩ := h
  exact ⟨x, hle hx, hm⟩

theorem sends_cons {x : Sent} : Sends (x :: l) e ↔
    (∃ m, x.message = .sendEntry m ∧ m.entry = e) ∨ Sends l e := by
  simp [Sends]

theorem sends_append : Sends (l ++ l') e ↔ Sends l e ∨ Sends l' e := by
  simp only [Sends, List.mem_append, or_and_right, exists_or]

theorem exists_mem_append {Q : Sent → Prop} :
    (∃ x ∈ l ++ l', Q x) ↔ (∃ x ∈ l, Q x) ∨ ∃ x ∈ l', Q x := by
  simp only [List.mem_append, or_and_right, exists_or]

/-- What reaches a peer without the entry: the entry, or a fingerprint with
it. -/
def Offers (F : Fingerprint → Set Entry → Prop) (l : List Sent) (e : Entry) : Prop :=
  Sends l e ∨ Compares F (e ∈ ·) l e

/-- What reaches a peer with the entry: a question for it, or a fingerprint
without it. -/
def Seeks (F : Fingerprint → Set Entry → Prop) (l : List Sent) (e : Entry) : Prop :=
  Asks l e ∨ Compares F (e ∉ ·) l e

theorem offers_append : Offers F (l ++ l') e ↔ Offers F l e ∨ Offers F l' e := by
  simp only [Offers, Sends, Compares, exists_mem_append]
  exact or_or_or_comm

theorem seeks_append : Seeks F (l ++ l') e ↔ Seeks F l e ∨ Seeks F l' e := by
  simp only [Seeks, Asks, Compares, exists_mem_append]
  exact or_or_or_comm

theorem not_offers_nil : ¬ Offers F [] e := by
  simp [Offers, Sends, Compares]

/-- What asks for an entry opens a range. -/
theorem Seeks.opens_ne_nil {id : TargetId} (h : Seeks F l e) (haddr : ∀ x ∈ l, x.Addressed id) :
    opens l ≠ [] := by
  have hopened : ∃ x ∈ l, x.opened.isSome = true := by
    rcases h with ⟨x, hx, m, hm, hwant, -⟩ | ⟨x, hx, m, X, hm, -⟩
    · have hx' := haddr x hx
      unfold Sent.Addressed at hx'
      rw [hm] at hx'
      exact ⟨x, hx, hx'.2.trans hwant⟩
    · have hx' := haddr x hx
      unfold Sent.Addressed at hx'
      rw [hm] at hx'
      exact ⟨x, hx, hx'.2⟩
  obtain ⟨x, hx, hsome⟩ := hopened
  obtain ⟨n, hn⟩ := Option.isSome_iff_exists.mp hsome
  exact List.ne_nil_of_mem (List.mem_filterMap.mpr ⟨x, hx, hn⟩)

section Model

variable {σ : Type} [Meadowcap] [Storage σ] {store : σ} {target : AoiIntersection}
  {t t' : Target} {range : Range3d} {cover : Option Nat} {wantResponse isEmpty : Bool}
  {rangeCount : Nat} {new : List Sent} {parts : List (Range3d × SplitAction)}

/-- A block sends its entries. -/
theorem EntryBlock.sends_iff {entries : List AuthorisedEntry} {body : List Sent}
    (h : EntryBlock store target entries body) :
    Sends body e ↔ ∃ a ∈ entries, a.entry = e := by
  induction h with
  | nil => simp [Sends]
  | @cons a rest chunks messages handle hchunks _ ih =>
      have hpayload : ¬ Sends (chunks.map fun chunk => ⟨.sendPayload chunk, target, none⟩) e := by
        rintro ⟨x, hx, m, hm, -⟩
        obtain ⟨chunk, -, rfl⟩ := List.mem_map.mp hx
        cases hm
      rw [sends_cons, sends_append, sends_cons, ih]
      simp [hpayload]

section Stores

variable {contents : σ → NamespaceId → Set Entry} (hlaw : Storage.KeepsFrontier contents)
include hlaw

/-- Announced entries are entries of the store in the range. -/
theorem Announces.held (h : Announces store t range wantResponse cover isEmpty new)
    (he : Sends new e) :
    e ∈ contents store t.intersection.namespaceId ∧ range.IncludesEntry e := by
  cases h with
  | intro entries body hblock hentries =>
      rcases sends_cons.mp he with ⟨m, hm, -⟩ | he
      · cases hm
      · cases isEmpty with
        | true =>
            obtain ⟨a, ha, -⟩ := hblock.sends_iff.mp he
            obtain rfl : entries = [] := by simpa using (Except.ok.inj hentries).symm
            cases ha
        | false =>
            exact (hlaw.entries store _ range entries hentries e).mp (hblock.sends_iff.mp he)

/-- All entries of the store in the range are sent. -/
theorem Announces.sends (h : Announces store t range wantResponse cover false new)
    (he : e ∈ contents store t.intersection.namespaceId) (hr : range.IncludesEntry e) :
    Sends new e := by
  cases h with
  | intro entries body hblock hentries =>
      have hmem := (hlaw.entries store _ range entries hentries e).mpr ⟨he, hr⟩
      exact sends_cons.mpr (Or.inr (hblock.sends_iff.mpr hmem))

omit hlaw in
theorem Announces.asks (h : Announces store t range true cover isEmpty new)
    (hr : range.IncludesEntry e) : Asks new e := by
  cases h with
  | intro entries body hblock hentries => exact ⟨_, List.mem_cons_self, _, rfl, rfl, hr⟩

theorem AnswersParts.held (h : AnswersParts store rangeCount parts t t' new) (he : Sends new e) :
    e ∈ contents store t.intersection.namespaceId := by
  induction h with
  | nil => simp [Sends] at he
  | fingerprint _ ih =>
      rcases sends_cons.mp he with ⟨m, hm, -⟩ | he
      · cases hm
      · exact ih he
  | entries hpiece _ ih =>
      rcases sends_append.mp he with he | he
      · exact (hpiece.held hlaw he).1
      · exact ih he

/-- The part with an entry of the store sends it, or a fingerprint of a set
with it. -/
theorem AnswersParts.sends_or_shows (h : AnswersParts store rangeCount parts t t' new)
    (hshow : ∀ r fp, (r, .sendFingerprint fp) ∈ parts → ∃ X, F fp X ∧
      X = {e | e ∈ contents store t.intersection.namespaceId ∧ r.IncludesEntry e})
    (hempty : ∀ r, (r, .sendEntries 0) ∈ parts →
      ∀ e ∈ contents store t.intersection.namespaceId, ¬ r.IncludesEntry e)
    (he : e ∈ contents store t.intersection.namespaceId)
    (hpart : ∃ part ∈ parts, part.1.IncludesEntry e) :
    Sends new e ∨ Compares F (e ∈ ·) new e := by
  induction h with
  | nil => simp at hpart
  | @fingerprint range fp rest t t' messages hrest ih =>
      obtain ⟨part, hmem, hr⟩ := hpart
      rcases List.mem_cons.mp hmem with rfl | hmem
      · obtain ⟨X, hF, rfl⟩ := hshow _ _ List.mem_cons_self
        exact Or.inr ⟨_, List.mem_cons_self, _, _, rfl, hr, hF, he, hr⟩
      · have htail := ih (fun r fp h => hshow r fp (List.mem_cons_of_mem _ h))
          (fun r h => hempty r (List.mem_cons_of_mem _ h)) he ⟨part, hmem, hr⟩
        exact htail.imp (·.mono (List.subset_cons_self _ _)) (·.mono (List.subset_cons_self _ _))
  | @entries range count rest t t' piece messages hpiece hrest ih =>
      obtain ⟨part, hmem, hr⟩ := hpart
      rcases List.mem_cons.mp hmem with rfl | hmem
      · -- the part is not empty, so its entries are read
        have hcount : (count == 0) = false := by
          cases count with
          | zero => exact absurd hr (hempty range List.mem_cons_self e he)
          | succ n => rfl
        rw [hcount] at hpiece
        exact Or.inl ((hpiece.sends hlaw he hr).mono (List.subset_append_left _ _))
      · have htail := ih (fun r fp h => hshow r fp (List.mem_cons_of_mem _ h))
          (fun r h => hempty r (List.mem_cons_of_mem _ h)) he ⟨part, hmem, hr⟩
        exact htail.imp (·.mono (List.subset_append_right _ _))
          (·.mono (List.subset_append_right _ _))

omit hlaw in
/-- The part with an entry that the store lacks asks for it, or sends a
fingerprint of a set without it. -/
theorem AnswersParts.asks_or_lacks (h : AnswersParts store rangeCount parts t t' new)
    (hshow : ∀ r fp, (r, .sendFingerprint fp) ∈ parts → ∃ X, F fp X ∧
      X = {e | e ∈ contents store t.intersection.namespaceId ∧ r.IncludesEntry e})
    (he : e ∉ contents store t.intersection.namespaceId)
    (hpart : ∃ part ∈ parts, part.1.IncludesEntry e) :
    Asks new e ∨ Compares F (e ∉ ·) new e := by
  induction h with
  | nil => simp at hpart
  | @fingerprint range fp rest t t' messages hrest ih =>
      obtain ⟨part, hmem, hr⟩ := hpart
      rcases List.mem_cons.mp hmem with rfl | hmem
      · obtain ⟨X, hF, rfl⟩ := hshow _ _ List.mem_cons_self
        exact Or.inr ⟨_, List.mem_cons_self, _, _, rfl, hr, hF, fun h => he h.1⟩
      · have htail := ih (fun r fp h => hshow r fp (List.mem_cons_of_mem _ h)) he ⟨part, hmem, hr⟩
        exact htail.imp (·.mono (List.subset_cons_self _ _)) (·.mono (List.subset_cons_self _ _))
  | @entries range count rest t t' piece messages hpiece hrest ih =>
      obtain ⟨part, hmem, hr⟩ := hpart
      rcases List.mem_cons.mp hmem with rfl | hmem
      · exact Or.inl ((hpiece.asks hr).mono (List.subset_append_left _ _))
      · have htail := ih (fun r fp h => hshow r fp (List.mem_cons_of_mem _ h)) he ⟨part, hmem, hr⟩
        exact htail.imp (·.mono (List.subset_append_right _ _))
          (·.mono (List.subset_append_right _ _))

theorem Answers.held {message : ReconciliationSendFingerprint} {ours : Fingerprint}
    (h : Answers store t message rangeCount ours t' new) (he : Sends new e) :
    e ∈ contents store t.intersection.namespaceId := by
  cases h with
  | matching _ hnew => exact (hnew.held hlaw he).1
  | empty _ _ hnew => exact (hnew.held hlaw he).1
  | split _ _ hnew => exact hnew.held hlaw he

/-! ## One message -/

section Fingerprints

variable {ns : NamespaceId}
  (hfp : ∀ r fp, Storage.fingerprint store ns r = .ok fp →
    F fp {e | e ∈ contents store ns ∧ r.IncludesEntry e})
  (hinj : ∀ fp X Y, F fp X → F fp Y → X = Y)
include hfp

theorem split_shows {range : Range3d}
    (hparts : Storage.splitRange store ns range {} = parts.map .ok) :
    ∀ r fp, (r, .sendFingerprint fp) ∈ parts → ∃ X, F fp X ∧
      X = {e | e ∈ contents store ns ∧ r.IncludesEntry e} :=
  fun r fp hmem => ⟨_, hfp r fp (hlaw.split_fingerprint store _ _ parts hparts r fp hmem), rfl⟩

include hinj

/-- The holder of an entry answers a fingerprint without it by the entry or by
a fingerprint with it. -/
theorem Answers.offers {message : ReconciliationSendFingerprint} {ours : Fingerprint}
    (h : Answers store t message rangeCount ours t' new)
    (hns : t.intersection.namespaceId = ns)
    (hours : Storage.fingerprint store ns message.range = .ok ours)
    {Y : Set Entry} (hY : F message.fingerprint Y) (heY : e ∉ Y)
    (he : e ∈ contents store ns) (hr : message.range.IncludesEntry e) : Offers F new e := by
  subst hns
  cases h with
  | matching heq _ =>
      -- equal fingerprints are those of equal sets
      have hX := hfp _ _ hours
      rw [heq] at hX
      exact absurd (hinj _ _ _ hX hY ▸ ⟨he, hr⟩ : e ∈ Y) heY
  | empty _ _ hnew => exact Or.inl (hnew.sends hlaw he hr)
  | split _ hparts hnew =>
      exact hnew.sends_or_shows hlaw (split_shows hlaw hfp hparts)
        (fun r hmem e he => hlaw.split_empty store _ _ _ hparts r hmem e he) he
        (hlaw.split_covers store _ _ _ hparts e hr)

/-- A peer without an entry answers a fingerprint with it by a question or by a
fingerprint without it. -/
theorem Answers.seeks {message : ReconciliationSendFingerprint} {ours : Fingerprint}
    (h : Answers store t message rangeCount ours t' new)
    (hns : t.intersection.namespaceId = ns)
    (hours : Storage.fingerprint store ns message.range = .ok ours)
    {X : Set Entry} (hX : F message.fingerprint X) (heX : e ∈ X)
    (he : e ∉ contents store ns) (hr : message.range.IncludesEntry e) : Seeks F new e := by
  subst hns
  cases h with
  | matching heq _ =>
      have hY := hfp _ _ hours
      rw [heq] at hY
      exact absurd (hinj _ _ _ hX hY ▸ heX).1 he
  | empty _ _ hnew => exact Or.inl (hnew.asks hr)
  | split _ hparts hnew =>
      exact hnew.asks_or_lacks (split_shows hlaw hfp hparts) he
        (hlaw.split_covers store _ _ _ hparts e hr)

/-- The holder of an entry answers what seeks it by what offers it. -/
theorem Reacts.offers {x : Sent} {store' : σ}
    (h : Reacts store t x.message t' new store') (hns : t.intersection.namespaceId = ns)
    (hx : Seeks F [x] e)
    (he : e ∈ contents store ns) : Offers F new e := by
  rcases hx with ⟨y, hy, m, hm, hwant, hr⟩ | ⟨y, hy, m, Y, hm, hr, hY, heY⟩
  · obtain rfl := List.mem_singleton.mp hy
    rw [hm] at h
    cases h with
    | respond hbegin _ hnew =>
        have hi := (beginReceive_ok hbegin).1
        exact Or.inl (hnew.sends hlaw (by rw [hi]; exact hns ▸ he) hr)
    | announce _ hnot =>
        rw [hwant] at hnot
        cases hnot
  · obtain rfl := List.mem_singleton.mp hy
    rw [hm] at h
    cases h with
    | fingerprint hbegin hours hnew =>
        obtain ⟨rfl, -⟩ := beginReceive_ok hbegin
        exact hnew.offers hlaw hfp hinj hns (hns ▸ hours) hY heY he hr

/-- A peer without an entry answers what offers it by what seeks it, or
ingests it. -/
theorem Reacts.seeks {x : Sent} {store' : σ}
    (h : Reacts store t x.message t' new store') (hns : t.intersection.namespaceId = ns)
    (hx : Offers F [x] e)
    (he : e ∉ contents store ns) :
    (∃ m, x.message = .sendEntry m ∧ m.entry = e) ∨ Seeks F new e := by
  rcases hx with ⟨y, hy, m, hm, rfl⟩ | ⟨y, hy, m, X, hm, hr, hX, heX⟩
  · obtain rfl := List.mem_singleton.mp hy
    exact Or.inl ⟨m, hm, rfl⟩
  · obtain rfl := List.mem_singleton.mp hy
    rw [hm] at h
    cases h with
    | fingerprint hbegin hours hnew =>
        obtain ⟨rfl, -⟩ := beginReceive_ok hbegin
        exact Or.inr (hnew.seeks hlaw hfp hinj hns (hns ▸ hours) hX heX he hr)

end Fingerprints

/-- A peer only sends entries that it holds. -/
theorem Reacts.held {message : ReconciliationMessage} {store' : σ}
    (h : Reacts store t message t' new store') (he : Sends new e) :
    e ∈ contents store t.intersection.namespaceId := by
  have hnil : ¬ Sends [] e := by simp [Sends]
  cases h with
  | fingerprint hbegin _ hnew =>
      obtain ⟨rfl, -⟩ := beginReceive_ok hbegin
      have := hnew.held hlaw he
      exact this
  | respond hbegin _ hnew =>
      obtain ⟨rfl, -⟩ := beginReceive_ok hbegin
      have := (hnew.held hlaw he).1
      exact this
  | announce _ _ => exact absurd he hnil
  | entry _ => exact absurd he hnil
  | payload => exact absurd he hnil
  | terminate _ => exact absurd he hnil

/-- What a message does to the store. -/
theorem Reacts.contents_eq {message : ReconciliationMessage} {store' : σ}
    (h : Reacts store t message t' new store')
    (hmin : ∀ ns, Frontier.frontier Entry.Prunes (contents store ns) = contents store ns) :
    (∀ m, message ≠ .sendEntry m) ∧ contents store' = contents store ∨
      ∃ m, message = .sendEntry m ∧ ∀ ns, contents store' ns =
        if m.entry.namespaceId = ns then
          Frontier.frontier Entry.Prunes (insert m.entry (contents store ns))
        else contents store ns := by
  cases h with
  | fingerprint _ _ _ => exact Or.inl ⟨by simp, rfl⟩
  | respond _ _ _ => exact Or.inl ⟨by simp, rfl⟩
  | announce _ _ => exact Or.inl ⟨by simp, rfl⟩
  | payload => exact Or.inl ⟨by simp, rfl⟩
  | @entry m a origin ha =>
      refine Or.inr ⟨m, rfl, fun ns => ?_⟩
      rw [hlaw.ingest store a origin hmin ns, ha]
  | terminate hstore =>
      rcases hstore with rfl | ⟨_, _, _, rfl⟩
      · exact Or.inl ⟨by simp, rfl⟩
      · exact Or.inl ⟨by simp, hlaw.importChunks _ _ _ _⟩

end Stores

end Model

end IrohWillow.Reconciler

namespace IrohWillow.Pair

open Reconciler Transition Frontier

section Model

variable {σ : Type} [Meadowcap]

/-- The entries of the target's namespace in the store of the peer. -/
def held (contents : σ → NamespaceId → Set Entry) (i : AoiIntersection) (s : Pair σ) (p : Role) :
    Set Entry :=
  contents (s.peer p).shared.store i.namespaceId

/-- What the peers hold comes from what they held at the start, and covers
it. -/
structure Preserves (contents : σ → NamespaceId → Set Entry) (i : AoiIntersection)
    (initial : Role → Set Entry) (s : Pair σ) : Prop where
  minimal : ∀ p ns, frontier Entry.Prunes (contents (s.peer p).shared.store ns) =
    contents (s.peer p).shared.store ns
  /-- Nothing comes from elsewhere. -/
  origin : ∀ p, ∀ e ∈ s.held contents i p, ∃ q, e ∈ initial q
  /-- Nothing is lost. -/
  kept : ∀ p, ∀ e ∈ initial p, Covered Entry.Prunes (s.held contents i p) e
  /-- What a peer did not hold at the start comes from the other peer. -/
  known : ∀ p, ∀ e ∈ s.held contents i p, e ∈ initial p ∨
    Covered Entry.Prunes (s.held contents i p.other) e
  sent : ∀ p, ∀ x ∈ s.sent p, ∀ m, x.message = .sendEntry m →
    Covered Entry.Prunes (s.held contents i p) m.entry ∧ (∃ q, m.entry ∈ initial q) ∧
      m.entry.namespaceId = i.namespaceId

/-- **The invariant.** What a peer held at the start is covered by the other
one, or it is offered to the other one, or sought from the peer. -/
def Pending (contents : σ → NamespaceId → Set Entry) (i : AoiIntersection) (range : Range3d)
    (initial : Role → Set Entry) (F : Fingerprint → Set Entry → Prop) (s : Pair σ) : Prop :=
  s.sent .alfie ≠ [] → ∀ q, ∀ e ∈ initial q, range.IncludesEntry e →
    Covered Entry.Prunes (s.held contents i q.other) e ∨
      Offers F (s.inFlight q.other) e ∨ Seeks F (s.inFlight q) e

variable {contents : σ → NamespaceId → Set Entry} {i : AoiIntersection} {range : Range3d}
  {initial : Role → Set Entry} {F : Fingerprint → Set Entry → Prop} {s s' : Pair σ} {p q : Role}
  {e : Entry}

/-- A peer holds an entry that it held at the start, unless the other peer
covers it. -/
theorem Preserves.mem_or_covered (h : Preserves contents i initial s)
    (hinitial : ∀ q, frontier Entry.Prunes (initial q) = initial q) (he : e ∈ initial q) :
    e ∈ s.held contents i q ∨ Covered Entry.Prunes (s.held contents i q.other) e := by
  obtain ⟨d, hd, rfl | hprunes⟩ := h.kept q e he
  · exact Or.inl hd
  · rcases h.known q d hd with hmem | hcovered
    · -- no entry of the start prunes another one of the same peer
      rw [← hinitial q] at he
      exact absurd hprunes (he.2 d hmem)
    · exact Or.inr (hcovered.of_rel hprunes)

/-- A step that leaves the stores as they are and sends no entry. -/
theorem Preserves.congr (h : Preserves contents i initial s)
    (hstore : ∀ p, (s'.peer p).shared.store = (s.peer p).shared.store)
    (hsent : ∀ p, ∀ x ∈ s'.sent p, x ∈ s.sent p ∨ ∀ m, x.message ≠ .sendEntry m) :
    Preserves contents i initial s' := by
  have hheld : ∀ p, s'.held contents i p = s.held contents i p := fun p => by
    unfold held
    rw [hstore]
  constructor
  case minimal =>
    intro p ns
    rw [hstore]
    exact h.minimal p ns
  case origin =>
    intro p
    rw [hheld]
    exact h.origin p
  case kept =>
    intro p
    rw [hheld]
    exact h.kept p
  case known =>
    intro p
    rw [hheld, hheld]
    exact h.known p
  case sent =>
    intro p x hx m hm
    rw [hheld]
    rcases hsent p x hx with hx | hother
    · exact h.sent p x hx m hm
    · exact absurd hm (hother m)

theorem Pending.congr (h : Pending contents i range initial F s)
    (hstore : ∀ p, (s'.peer p).shared.store = (s.peer p).shared.store)
    (hsent : s'.sent = s.sent) (hreceived : s'.received = s.received) :
    Pending contents i range initial F s' := by
  have hheld : ∀ p, s'.held contents i p = s.held contents i p := fun p => by
    unfold held
    rw [hstore]
  have hinFlight : s'.inFlight = s.inFlight := by
    unfold inFlight
    rw [hsent, hreceived]
  intro hinit q
  rw [hheld, hinFlight]
  rw [hsent] at hinit
  exact h hinit q

variable [Storage σ]

/-! ## The first fingerprint -/

theorem Initiation.store_eq {t : Target} {new : List Sent} (hd : Initiation i range s s' p t new) :
    ∀ p', (s'.peer p').shared.store = (s.peer p').shared.store :=
  Role.forall_of p hd.emits.keeps.store (by rw [hd.peer_other])

theorem Preserves.of_initiation (h : Preserves contents i initial s) (hsent : s.sent p = [])
    {t : Target} {new : List Sent} (hd : Initiation i range s s' p t new) :
    Preserves contents i initial s' := by
  refine h.congr hd.store_eq (Role.forall_of p ?_ ?_)
  · intro x hx
    rw [hd.sent_self hsent] at hx
    rcases hd.initiates.shape with ⟨-, fp, -, rfl⟩ | ⟨-, rfl⟩
    · obtain rfl := List.mem_singleton.mp hx
      exact Or.inr (by simp [Target.fingerprintMessage])
    · cases hx
  · intro x hx
    rw [hd.sent_other] at hx
    exact Or.inl hx

/-- **Taking the target from the inbox keeps the invariant**: Alfie's
fingerprint offers what he holds and seeks what he lacks. -/
theorem Pending.of_initiation (h : Pending contents i range initial F s)
    (hkeeps : Preserves contents i initial s)
    (hinitial : ∀ q, frontier Entry.Prunes (initial q) = initial q)
    (hfp : ∀ p fp, Storage.fingerprint (s.peer p).shared.store i.namespaceId range = .ok fp →
      F fp {e | e ∈ s.held contents i p ∧ range.IncludesEntry e})
    (hinv : Inv i s) (hsent : s.sent p = []) {t : Target} {new : List Sent}
    (hd : Initiation i range s s' p t new) : Pending contents i range initial F s' := by
  have hheld : ∀ p', s'.held contents i p' = s.held contents i p' := fun p' => by
    unfold held
    rw [hd.store_eq]
  rcases hd.initiates.shape with ⟨rfl, fp, hfingerprint, rfl⟩ | ⟨rfl, rfl⟩
  · rw [hd.intersection, AoiIntersection.seenBy_namespaceId] at hfingerprint
    have hinFlight : s'.inFlight .betty = s'.sent .alfie := by
      have hle := hinv.received_le .betty
      change s.received .betty ≤ (s.sent .alfie).length at hle
      rw [hsent] at hle
      unfold inFlight
      rw [hd.received, Nat.le_zero.mp hle, List.drop_zero]
      rfl
    have hmessage := hd.sent_self hsent
    intro _ q e he hr
    rw [hheld]
    by_cases hmem : e ∈ s.held contents i .alfie
    · cases q with
      | alfie =>
          refine Or.inr (Or.inl (Or.inr ?_))
          change Compares F (e ∈ ·) (s'.inFlight .betty) e
          rw [hinFlight, hmessage]
          exact ⟨_, List.mem_cons_self, _, _, rfl, hr, hfp _ _ hfingerprint, hmem, hr⟩
      | betty => exact Or.inl (.of_mem hmem)
    · cases q with
      | alfie => exact Or.inl ((hkeeps.mem_or_covered hinitial he).resolve_left hmem)
      | betty =>
          refine Or.inr (Or.inr (Or.inr ?_))
          rw [hinFlight, hmessage]
          exact ⟨_, List.mem_cons_self, _, _, rfl, hr, hfp _ _ hfingerprint, fun h => hmem h.1⟩
  · refine h.congr hd.store_eq (funext (Role.forall_of .betty ?_ hd.sent_other)) hd.received
    rw [hd.sent_self hsent, hsent]

/-! ## The delivery of a message -/

/-- What the delivery does to what the peer holds: nothing gets lost, and only
the entry of the message is new. -/
theorem Preserves.held_after (hlaw : Storage.KeepsFrontier contents)
    (h : Preserves contents i initial s) {x : Sent} {rest new : List Sent}
    {t t' : Target} {φ' : Phase} (hd : Delivery i s s' p x rest t t' φ' new) :
    (∀ ns, frontier Entry.Prunes (contents (s'.peer p).shared.store ns) =
      contents (s'.peer p).shared.store ns) ∧
    (∀ e, Covered Entry.Prunes (s.held contents i p) e →
      Covered Entry.Prunes (s'.held contents i p) e) ∧
    (∀ e ∈ s'.held contents i p, e ∈ s.held contents i p ∨
      ∃ m, x.message = .sendEntry m ∧ m.entry = e) ∧
    ∀ m, x.message = .sendEntry m → m.entry.namespaceId = i.namespaceId →
      Covered Entry.Prunes (s'.held contents i p) m.entry := by
  unfold held
  rcases hd.handled.reacts.contents_eq hlaw (h.minimal p) with ⟨hother, heq⟩ | ⟨m, hm, heq⟩
  · rw [heq]
    exact ⟨h.minimal p, fun e he => he, fun e he => Or.inl he, fun m hm => absurd hm (hother m)⟩
  · have hfin : ∀ ns, (insert m.entry (contents (s.peer p).shared.store ns)).Finite := fun ns =>
      (hlaw.finite _ ns).insert _
    refine ⟨fun ns => ?_, fun e he => ?_, fun e he => ?_, fun m' hm' hns => ?_⟩
    · rw [heq]
      split
      · exact frontier_frontier
      · exact h.minimal p ns
    · rw [heq]
      split
      · exact (covered_frontier_iff (hfin _)).mpr (he.mono (Set.subset_insert _ _))
      · exact he
    · rw [heq] at he
      split at he
      · rcases frontier_subset he with rfl | he
        · exact Or.inr ⟨m, hm, rfl⟩
        · exact Or.inl he
      · exact Or.inl he
    · rw [hm] at hm'
      obtain rfl := ReconciliationMessage.sendEntry.inj hm'
      rw [heq, if_pos hns]
      exact covered_frontier (hfin _) (Set.mem_insert _ _)

theorem Preserves.of_delivery (hlaw : Storage.KeepsFrontier contents)
    (h : Preserves contents i initial s) {x : Sent} {rest new : List Sent} {t t' : Target}
    {φ' : Phase} (ht : Active i s p t) (hd : Delivery i s s' p x rest t t' φ' new) :
    Preserves contents i initial s' := by
  obtain ⟨hminimal, hmono, hsub, -⟩ := h.held_after hlaw hd
  have hns : t.intersection.namespaceId = i.namespaceId := by
    rw [ht.intersection, AoiIntersection.seenBy_namespaceId]
  have hother : s'.held contents i p.other = s.held contents i p.other := by
    unfold held
    rw [hd.peer_other]
  have hmem : x ∈ s.sent p.other := hd.mem
  constructor
  case minimal =>
    refine Role.forall_of p hminimal ?_
    rw [hd.peer_other]
    exact h.minimal p.other
  case origin =>
    refine Role.forall_of p ?_ ?_
    · intro e he
      -- held before, or ingested from the message
      rcases hsub e he with he | ⟨m, hm, rfl⟩
      · exact h.origin p e he
      · exact (h.sent p.other x hmem m hm).2.1
    · rw [hother]
      exact h.origin p.other
  case kept =>
    refine Role.forall_of p (fun e he => hmono e (h.kept p e he)) ?_
    rw [hother]
    exact h.kept p.other
  case known =>
    refine Role.forall_of p ?_ ?_
    · intro e he
      rw [hother]
      rcases hsub e he with he | ⟨m, hm, rfl⟩
      · exact h.known p e he
      · exact Or.inr (h.sent p.other x hmem m hm).1
    · intro e he
      rw [hother] at he
      rw [Role.other_other]
      have hknown := h.known p.other e he
      rw [Role.other_other] at hknown
      exact hknown.imp_right (hmono e)
  case sent =>
    refine Role.forall_of p ?_ ?_
    · rw [hd.sent_self]
      intro y hy m hm
      rcases List.mem_append.mp hy with hy | hy
      · obtain ⟨hcovered, horigin, hnamespace⟩ := h.sent p y hy m hm
        exact ⟨hmono _ hcovered, horigin, hnamespace⟩
      · -- what is sent is held, and so comes from one of the two stores
        have hheld : m.entry ∈ s.held contents i p := by
          have := hd.handled.reacts.held hlaw ⟨y, hy, m, hm, rfl⟩
          rwa [hns] at this
        exact ⟨hmono _ (.of_mem hheld), h.origin p _ hheld, hlaw.namespaceId _ _ _ hheld⟩
    · rw [hd.sent_other, hother]
      exact h.sent p.other

/-- **The delivery of a message keeps the invariant.** -/
theorem Pending.of_delivery (hlaw : Storage.KeepsFrontier contents)
    (h : Pending contents i range initial F s) (hkeeps : Preserves contents i initial s)
    (hinitial : ∀ q, frontier Entry.Prunes (initial q) = initial q)
    (hfp : ∀ p r fp, Storage.fingerprint (s.peer p).shared.store i.namespaceId r = .ok fp →
      F fp {e | e ∈ s.held contents i p ∧ r.IncludesEntry e})
    (hinj : ∀ fp X Y, F fp X → F fp Y → X = Y) (hinv : Inv i s) {x : Sent}
    {rest new : List Sent} {t t' : Target} {φ' : Phase} (ht : Active i s p t)
    (hd : Delivery i s s' p x rest t t' φ' new) : Pending contents i range initial F s' := by
  obtain ⟨-, hmono, -, hingested⟩ := hkeeps.held_after hlaw hd
  have hreacts := hd.handled.reacts
  have hns : t.intersection.namespaceId = i.namespaceId := by
    rw [ht.intersection, AoiIntersection.seenBy_namespaceId]
  have hother : s'.held contents i p.other = s.held contents i p.other := by
    unfold held
    rw [hd.peer_other]
  have hle : s.received p.other ≤ (s.sent p).length := by
    simpa using hinv.received_le p.other
  have hmem : x ∈ s.sent p.other := hd.mem
  intro _
  -- Alfie has sent his fingerprint when anything is delivered
  have hinit : s.sent .alfie ≠ [] := by
    cases p with
    | alfie => exact ht.initiated rfl
    | betty => exact List.ne_nil_of_mem hmem
  have hnext : s.inFlight p = [x] ++ rest := hd.next
  refine Role.forall_of p ?_ ?_
  · -- the peer held the entry at the start
    intro e he hr
    rw [hother, hd.inFlight_other hle, hd.inFlight_self, offers_append]
    rcases h hinit p e he hr with hcovered | hoffers | hseeks
    · exact Or.inl hcovered
    · exact Or.inr (Or.inl (Or.inl hoffers))
    · rw [hnext, seeks_append] at hseeks
      rcases hseeks with hseeks | hseeks
      · -- the message asks for the entry: it is offered, or something newer is there
        rcases hkeeps.mem_or_covered hinitial he with hmem | hcovered
        · exact Or.inr (Or.inl (Or.inr (hreacts.offers hlaw (hfp p) hinj hns hseeks hmem)))
        · exact Or.inl hcovered
      · exact Or.inr (Or.inr hseeks)
  · -- the other peer did
    intro e he hr
    rw [Role.other_other, hd.inFlight_other hle, hd.inFlight_self, seeks_append]
    have hpending := h hinit p.other e he hr
    rw [Role.other_other] at hpending
    rcases hpending with hcovered | hoffers | hseeks
    · exact Or.inl (hmono e hcovered)
    · rw [hnext, offers_append] at hoffers
      rcases hoffers with hoffers | hoffers
      · -- the message offers the entry: it is held, ingested, or asked for
        by_cases hheld : e ∈ s.held contents i p
        · exact Or.inl (hmono e (.of_mem hheld))
        · rcases hreacts.seeks hlaw (hfp p) hinj hns hoffers hheld with ⟨m, hm, rfl⟩ | hseeks
          · exact Or.inl (hingested m hm (hkeeps.sent p.other x hmem m hm).2.2)
          · exact Or.inr (Or.inr (Or.inr hseeks))
      · exact Or.inr (Or.inl hoffers)
    · exact Or.inr (Or.inr (Or.inl hseeks))

/-! ## Runs -/

/-- In some state of a run, a peer computes the fingerprint out of the set. -/
def Occurs [WillowDataModel] (contents : σ → NamespaceId → Set Entry) (i : AoiIntersection)
    (start : Pair σ) (fp : Fingerprint) (X : Set Entry) : Prop :=
  ∃ s p range, Reachable step (fun _ _ => True) start s ∧
    Storage.fingerprint (s.peer p).shared.store i.namespaceId range = .ok fp ∧
    X = {e | e ∈ s.held contents i p ∧ range.IncludesEntry e}

variable [WillowDataModel]

theorem Preserves.step (hnever : Storage.NeverFails σ) (hlaw : Storage.KeepsFrontier contents)
    (hrange : i.area.toRange = some range) (h : Preserves contents i initial s) (hinv : Inv i s)
    {a : Action} (hstep : Pair.step s a = some s') : Preserves contents i initial s' := by
  cases a with
  | takeInput p =>
      obtain ⟨hsent, -, -, t, new, hd⟩ := hinv.initiation hnever hrange hstep
      exact h.of_initiation hsent hd
  | deliver p =>
      obtain ⟨t, ht⟩ := hinv.active_of_deliver hstep
      obtain ⟨x, rest, t', φ, φ', new, ψ, hd, -, -, -, -, -⟩ := hinv.deliver_active hnever ht hstep
      exact h.of_delivery hlaw ht hd
  | deliverToken p =>
      obtain ⟨hstore, hsent, -⟩ := deliverToken_frame hstep
      refine h.congr hstore fun p' x hx => Or.inl ?_
      rwa [hsent] at hx

/-- **Every step keeps the invariant.** -/
theorem Pending.step (hnever : Storage.NeverFails σ) (hlaw : Storage.KeepsFrontier contents)
    (hrange : i.area.toRange = some range) (h : Pending contents i range initial F s)
    (hkeeps : Preserves contents i initial s)
    (hinitial : ∀ q, frontier Entry.Prunes (initial q) = initial q)
    (hfp : ∀ p r fp, Storage.fingerprint (s.peer p).shared.store i.namespaceId r = .ok fp →
      F fp {e | e ∈ s.held contents i p ∧ r.IncludesEntry e})
    (hinj : ∀ fp X Y, F fp X → F fp Y → X = Y) (hinv : Inv i s) {a : Action}
    (hstep : Pair.step s a = some s') : Pending contents i range initial F s' := by
  cases a with
  | takeInput p =>
      obtain ⟨hsent, -, -, t, new, hd⟩ := hinv.initiation hnever hrange hstep
      exact h.of_initiation hkeeps hinitial (fun p => hfp p range) hinv hsent hd
  | deliver p =>
      obtain ⟨t, ht⟩ := hinv.active_of_deliver hstep
      obtain ⟨x, rest, t', φ, φ', new, ψ, hd, -, -, -, -, -⟩ := hinv.deliver_active hnever ht hstep
      exact h.of_delivery hlaw hkeeps hinitial hfp hinj hinv ht hd
  | deliverToken p =>
      obtain ⟨hstore, hsent, hreceived⟩ := deliverToken_frame hstep
      exact h.congr hstore hsent hreceived

variable {store : Role → σ} {sessionId : SessionId} {maxEagerPayloadSize : Role → U64}

theorem preserves_of_reachable (hnever : Storage.NeverFails σ)
    (hlaw : Storage.KeepsFrontier contents) (hrange : i.area.toRange = some range)
    (hstore : ∀ p ns, frontier Entry.Prunes (contents (store p) ns) = contents (store p) ns)
    (h : Reachable Pair.step (fun _ _ => True)
      (Pair.start i store sessionId maxEagerPayloadSize) s) :
    Inv i s ∧ Preserves contents i (fun q => contents (store q) i.namespaceId) s := by
  refine h.invariant (P := fun s => Inv i s ∧
    Preserves contents i (fun q => contents (store q) i.namespaceId) s) ⟨.start _ _ _ _, ?_⟩ ?_
  · refine ⟨hstore, fun p e he => ⟨p, he⟩, fun p e he => .of_mem he, fun p e he => Or.inl he, ?_⟩
    intro p x hx
    cases hx
  · intro s a s' hs _ hstep
    exact ⟨hs.1.step hnever hrange hstep, hs.2.step hnever hlaw hrange hs.1 hstep⟩

/-- **Reconciliation converges.** Let the stores of two honest peers keep
exactly the entries that no other entry prunes, and let fingerprints that the
peers compute be equal only for equal sets. Whenever a peer has completed the
target, it has or covers all entries in the range of the target that one of the
peers held at the start, and holds no other entries. -/
theorem reconciliation_converges (hnever : Storage.NeverFails σ)
    (hlaw : Storage.KeepsFrontier contents) (i : AoiIntersection) (range : Range3d)
    (hrange : i.area.toRange = some range) (store : Role → σ) (sessionId : SessionId)
    (maxEagerPayloadSize : Role → U64)
    (hstore : ∀ p ns, frontier Entry.Prunes (contents (store p) ns) = contents (store p) ns)
    (hinj : ∀ fp X Y, Occurs contents i (Pair.start i store sessionId maxEagerPayloadSize) fp X →
      Occurs contents i (Pair.start i store sessionId maxEagerPayloadSize) fp Y → X = Y)
    (s : Pair σ)
    (h : Reachable Pair.step (fun _ _ => True)
      (Pair.start i store sessionId maxEagerPayloadSize) s)
    (p : Role) (hcompleted : s.Completed i p) :
    (∀ q, ∀ e ∈ contents (store q) i.namespaceId, range.IncludesEntry e →
      Covered Entry.Prunes (s.held contents i p) e) ∧
    ∀ e ∈ s.held contents i p, range.IncludesEntry e →
      ∃ q, e ∈ contents (store q) i.namespaceId := by
  set start := Pair.start i store sessionId maxEagerPayloadSize with hstart
  set initial : Role → Set Entry := fun q => contents (store q) i.namespaceId with hinitial
  obtain ⟨hinv, hkeeps⟩ := preserves_of_reachable hnever hlaw hrange hstore h
  have hboth : Reachable Pair.step (fun _ _ => True) start s ∧
      Pending contents i range initial (Occurs contents i start) s := by
    refine h.invariant (P := fun s => Reachable Pair.step (fun _ _ => True) start s ∧
      Pending contents i range initial (Occurs contents i start) s)
      ⟨.refl, fun hinit => absurd rfl hinit⟩ ?_
    intro s a s' hs _ hstep
    obtain ⟨hreach, hpending⟩ := hs
    obtain ⟨hinv, hkeeps⟩ := preserves_of_reachable hnever hlaw hrange hstore hreach
    exact ⟨hreach.tail trivial hstep, hpending.step hnever hlaw hrange hkeeps
      (fun q => hstore q _) (fun p r fp hfp => ⟨s, p, r, hreach, hfp, rfl⟩) hinj hinv hstep⟩
  obtain ⟨-, hall⟩ := hboth
  obtain ⟨-, hinit, hcovered, hinFlight⟩ := hinv.done_of_completed hcompleted
  refine ⟨Role.forall_of p (fun e he _ => hkeeps.kept p e he) ?_, fun e he _ => hkeeps.origin p e he⟩
  intro e he hr
  have hpending := hall hinit p.other e he hr
  rw [Role.other_other, hinFlight] at hpending
  rcases hpending with hcov | hoffers | hseeks
  · exact hcov
  · exact absurd hoffers not_offers_nil
  · -- a message that seeks the entry opens a range, but all are covered
    have haddr : ∀ x ∈ s.inFlight p.other, x.Addressed (i.seenBy p).peerId := fun x hx =>
      hinv.addressed p x (by
        have := List.mem_of_mem_drop hx
        rwa [Role.other_other] at this)
    have hne := hseeks.opens_ne_nil haddr
    have hcovers : (covers (s.delivered p)).length ≤ (opens (s.delivered p.other)).length := by
      rw [← hinv.covers_eq p.other]
      exact ((delivered_isPrefix s p).filterMap (·.covers)).length_le
    have hopens := congrArg List.length (congrArg opens (delivered_append_inFlight s p.other))
    rw [opens_append, List.length_append, Role.other_other, hcovered] at hopens
    have hpos := List.length_pos_of_ne_nil hne
    omega

/-- What ingesting and importing preserve holds of the stores in every run. -/
theorem store_invariant (hnever : Storage.NeverFails σ) (hrange : i.area.toRange = some range)
    {Q : σ → Prop}
    (hingest : ∀ store a origin, Q store → Q (Storage.ingestEntry store a origin).2)
    (himport : ∀ store digest length chunks, Q store →
      Q (Storage.importChunks store digest length chunks).2)
    (hstore : ∀ p, Q (store p))
    (h : Reachable Pair.step (fun _ _ => True)
      (Pair.start i store sessionId maxEagerPayloadSize) s) (p : Role) :
    Q (s.peer p).shared.store := by
  have hboth : Inv i s ∧ ∀ p, Q (s.peer p).shared.store := by
    refine h.invariant (P := fun s => Inv i s ∧ ∀ p, Q (s.peer p).shared.store)
      ⟨.start _ _ _ _, hstore⟩ ?_
    intro s a s' hs _ hstep
    obtain ⟨hinv, hQ⟩ := hs
    refine ⟨hinv.step hnever hrange hstep, ?_⟩
    cases a with
    | takeInput p =>
        obtain ⟨-, -, -, t, new, hd⟩ := hinv.initiation hnever hrange hstep
        intro p'
        rw [hd.store_eq]
        exact hQ p'
    | deliver p =>
        obtain ⟨t, ht⟩ := hinv.active_of_deliver hstep
        obtain ⟨x, rest, t', φ, φ', new, ψ, hd, -, -, -, -, -⟩ :=
          hinv.deliver_active hnever ht hstep
        refine Role.forall_of p ?_ ?_
        · rcases hd.handled.reacts.store_cases with heq | ⟨a, origin, heq⟩ | ⟨_, _, _, heq⟩
          · rw [heq]
            exact hQ p
          · rw [heq]
            exact hingest _ _ _ (hQ p)
          · rw [heq]
            exact himport _ _ _ _ (hQ p)
        · rw [hd.peer_other]
          exact hQ p.other
    | deliverToken p =>
        obtain ⟨hstores, -, -⟩ := deliverToken_frame hstep
        intro p'
        rw [hstores]
        exact hQ p'
  exact hboth.2 p

end Model

/-! ### One entry -/

section Samples

open IrohWillow.Sample IrohWillow.Pair.Sample

attribute [local instance] acceptingSignatures timestampHash ReadAccess.Sample.nestedAreas

theorem Sample.oneEntry_minimal (p : Role) (ns : NamespaceId) :
    frontier Entry.Prunes (IdealStore.contents (oneEntry p) ns) =
      IdealStore.contents (oneEntry p) ns := by
  have hsub : ∀ e ∈ IdealStore.contents (oneEntry p) ns, e = bareEntryAt [] 1 := by
    rintro e ⟨a, ha, rfl, -⟩
    cases p with
    | alfie =>
        obtain rfl := List.mem_singleton.mp ha
        rfl
    | betty => cases ha
  refine frontier_subset.antisymm fun e he => ⟨he, fun d hd hprunes => ?_⟩
  rw [hsub d hd, hsub e he] at hprunes
  exact irrefl_of Entry.Prunes _ hprunes

/-- The fingerprints that occur when there is only one entry. -/
theorem Sample.oneEntry_occurs {fp : Fingerprint} {X : Set Entry}
    (h : Occurs IdealStore.contents everything (Pair.start everything oneEntry 0 fun _ => 0) fp X) :
    (fp = 0 ∧ X = ∅) ∨ (fp = 2 ∧ X = {bareEntryAt [] 1}) := by
  obtain ⟨s, p, r, hreach, hfp, rfl⟩ := h
  have hrange : everything.area.toRange = some .full := rfl
  have hnodup : ((s.peer p).shared.store.entries.map (·.entry)).Nodup :=
    store_invariant IdealStore.neverFails hrange
      (Q := fun store : IdealStore => (store.entries.map AuthorisedEntry.entry).Nodup)
      (fun store a _ hstore => IdealStore.nodup_ingest hstore a) (fun _ _ _ _ hstore => hstore)
      (fun p => by cases p <;> decide) hreach p
  obtain ⟨-, hkeeps⟩ := preserves_of_reachable IdealStore.neverFails IdealStore.keepsFrontier
    hrange oneEntry_minimal hreach
  set l := (s.peer p).shared.store.getEntries namespaceId r with hl
  have hmem : ∀ e, e ∈ l ↔ e ∈ s.held IdealStore.contents everything p ∧ r.IncludesEntry e := by
    intro e
    simp only [hl, IdealStore.getEntries, List.mem_map, IdealStore.mem_entriesIn]
    constructor
    · rintro ⟨a, ⟨ha, hns, hr⟩, rfl⟩
      exact ⟨⟨a, ha, rfl, hns⟩, hr⟩
    · rintro ⟨⟨a, ha, rfl, hns⟩, hr⟩
      exact ⟨a, ⟨ha, hns, hr⟩, rfl⟩
  have hone : ∀ e ∈ l, e = bareEntryAt [] 1 := by
    intro e he
    obtain ⟨q, a, ha, rfl, -⟩ := hkeeps.origin p e ((hmem e).mp he).1
    cases q with
    | alfie =>
        obtain rfl := List.mem_singleton.mp ha
        rfl
    | betty => cases ha
  have hset : {e | e ∈ s.held IdealStore.contents everything p ∧ r.IncludesEntry e} =
      {e | e ∈ l} := by
    ext e
    exact (hmem e).symm
  have hl' : l.Nodup := hnodup.sublist (List.filter_sublist.map _)
  obtain rfl : Fingerprint.fromEntries l = fp := Except.ok.inj hfp
  rw [hset]
  generalize l = entries at hone hl'
  match entries with
  | [] => exact Or.inl ⟨rfl, by simp⟩
  | [e] =>
      obtain rfl := hone e List.mem_cons_self
      exact Or.inr ⟨by rfl, by simp⟩
  | e :: e' :: rest =>
      have heq := (hone e List.mem_cons_self).trans (hone e' (by simp)).symm
      simp [heq] at hl'

/-- Betty completes the target with Alfie's entry. -/
theorem reconciliation_converges_one_entry :
    ∃ s, Reachable Pair.step (fun _ _ => True) (Pair.start everything oneEntry 0 fun _ => 0) s ∧
      s.Completed everything .betty ∧
      Covered Entry.Prunes (s.held IdealStore.contents everything .betty) (bareEntryAt [] 1) := by
  have hrun : ((run Pair.step (Pair.start everything oneEntry 0 fun _ => 0) transfer).map fun s =>
      decide (.reconciledArea everything.namespaceId everything.intersection ∈
        (s.peer .betty).shared.outputs)) = some true := by rfl
  obtain ⟨s, hs, heq⟩ := Option.map_eq_some_iff.mp hrun
  have hreach : Reachable Pair.step (fun _ _ => True)
      (Pair.start everything oneEntry 0 fun _ => 0) s := .of_run hs (by decide)
  have hcompleted : s.Completed everything .betty := by
    unfold Completed
    simpa using heq
  have hinj : ∀ fp X Y,
      Occurs IdealStore.contents everything (Pair.start everything oneEntry 0 fun _ => 0) fp X →
      Occurs IdealStore.contents everything (Pair.start everything oneEntry 0 fun _ => 0) fp Y →
      X = Y := by
    intro fp X Y hX hY
    rcases oneEntry_occurs hX with ⟨rfl, rfl⟩ | ⟨rfl, rfl⟩
    · rcases oneEntry_occurs hY with ⟨-, rfl⟩ | ⟨hne, -⟩
      · rfl
      · cases hne
    · rcases oneEntry_occurs hY with ⟨hne, -⟩ | ⟨-, rfl⟩
      · cases hne
      · rfl
  obtain ⟨hall, -⟩ := reconciliation_converges IdealStore.neverFails IdealStore.keepsFrontier
    everything .full rfl oneEntry 0 (fun _ => 0) oneEntry_minimal hinj s hreach .betty hcompleted
  exact ⟨s, hreach, hcompleted, hall .alfie _ ⟨_, List.mem_cons_self, rfl, rfl⟩ (by decide)⟩

end Samples

end IrohWillow.Pair
