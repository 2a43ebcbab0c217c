import IrohWillow.Session.IdealStore
import IrohWillow.Session.Pair
import IrohWillow.Session.ReadAccess

/-!
# The accounts of two honest peers agree

Alfie and Betty number the ranges on their own: the sender of a message that
opens a range counts it, and so does the receiver. Two equations carry the
whole argument. What a peer has opened is numbered `0, 1, 2, …` in the order of
its log, and what it has covered is what the other peer has opened in the
messages that it has processed, in the same order (`Inv.opens_eq`,
`Inv.covers_eq`). So the next message that opens a range has the number that
the receiver gives it, and the next message that covers a range covers one that
is pending.

That no message arrives after a target is completed follows from the shape of
the answers: each answer ends with the message that covers the range, so that a
peer with no pending range has received all of them.
-/

namespace IrohWillow.Pair

open Reconciler Transition

/-! ## Numbers in order -/

theorem eq_length_of_append_eq_range {l l' : List Nat} {n k : Nat}
    (h : l ++ n :: l' = List.range k) : n = l.length := by
  have hget := congrArg (fun m => m[l.length]?) h
  simp only [List.getElem?_append_right (le_refl _), Nat.sub_self, List.getElem?_cons_zero] at hget
  obtain ⟨hlt, heq⟩ := List.getElem?_eq_some_iff.mp hget.symm
  simpa using heq.symm

theorem eq_range_of_isPrefix {l : List Nat} {k : Nat} (h : l <+: List.range k) :
    l = List.range l.length := by
  have hle : l.length ≤ k := by simpa using h.length_le
  have htake := List.prefix_iff_eq_take.mp h
  rw [List.take_range, Nat.min_eq_left hle] at htake
  exact htake

/-- The message is a `SendFingerprint` or an `AnnounceEntries` that wants a
response. -/
def OpensRange (m : ReconciliationMessage) : Prop :=
  match m with
  | .sendFingerprint _ => True
  | .announceEntries m => m.wantResponse = true
  | .sendEntry _ => False
  | .sendPayload _ => False
  | .terminatePayload _ => False

theorem opened_of_opensRange {x : Sent} {id : TargetId} (haddr : x.Addressed id)
    (hopens : OpensRange x.message) : ∃ n, x.opened = some n := by
  obtain ⟨message, target, opened⟩ := x
  cases message with
  | sendFingerprint m => exact Option.isSome_iff_exists.mp haddr.2
  | announceEntries m => exact Option.isSome_iff_exists.mp (haddr.2.trans hopens)
  | sendEntry m => exact absurd hopens not_false
  | sendPayload bytes => exact absurd hopens not_false
  | terminatePayload isFinal => exact absurd hopens not_false

section Model

variable {σ : Type} [Meadowcap] [Storage σ]

/-! ## The invariant -/

/-- The phase in which a peer starts to receive. -/
def startPhase : Role → Phase
  | .alfie => .idle true
  | .betty => .fresh

/-- The entries that the peer is receiving are those of the messages it has
processed, and the messages on their way complete them. -/
def Framed (i : AoiIntersection) (s : Pair σ) (p : Role) : Prop :=
  ∃ φ ψ, Trace (Phase.Step σ) (startPhase p) (s.delivered p) φ ∧
    φ.Matches (i.seenBy p).id (s.peer p).entryState ∧
    Trace (Phase.Step σ) φ (s.inFlight p) ψ ∧
    (ψ = .idle true ∨ ψ = .fresh ∧ s.sent p.other = [])

/-- The target of a peer that works on it. -/
structure Active (i : AoiIntersection) (s : Pair σ) (p : Role) (t : Target) : Prop where
  inbox : (s.peer p).inbox = []
  lookup : (s.peer p).targets.lookup (i.seenBy p).id = some t
  outputs : (s.peer p).shared.outputs = []
  intersection : t.intersection = i.seenBy p
  ourRangeCounter : t.ourRangeCounter = (opens (s.sent p)).length
  theirRangeCounter : t.theirRangeCounter = (opens (s.delivered p)).length
  uncovered : ∀ n, n ∈ t.ourUncoveredRanges ↔ n ∈ opens (s.sent p) ∧ n ∉ covers (s.delivered p)
  started : t.started = true ↔ 0 < s.received p
  initiated : p = .alfie → s.sent p ≠ []
  incomplete : ¬ (t.isComplete = true ∧ (s.peer p).entryState = none)

/-- How far a peer is. -/
inductive Stage (i : AoiIntersection) (s : Pair σ) (p : Role) : Prop
  /-- The target is in the inbox. -/
  | waiting (hinbox : (s.peer p).inbox = [i.seenBy p])
      (hlookup : (s.peer p).targets.lookup (i.seenBy p).id = none)
      (houtputs : (s.peer p).shared.outputs = []) (hsent : s.sent p = [])
      (hreceived : s.received p = 0)
  /-- The peer works on the target. -/
  | active (t : Target) (h : Active i s p t)
  /-- The target is completed: all ranges are covered, and nothing is on its
  way. -/
  | done (hinbox : (s.peer p).inbox = [])
      (hlookup : (s.peer p).targets.lookup (i.seenBy p).id = none) (hcompleted : s.Completed i p)
      (hinitiated : p = .alfie → s.sent p ≠ []) (hreceived : 0 < s.received p)
      (hcovered : opens (s.sent p) = covers (s.delivered p)) (hinFlight : s.inFlight p = [])

/-- **The invariant.** -/
structure Inv (i : AoiIntersection) (s : Pair σ) : Prop where
  role : ∀ p, (s.peer p).shared.ourRole = p
  running : ∀ p, s.failed p = false
  received_le : ∀ p, s.received p ≤ (s.sent p.other).length
  receivedTokens_le : ∀ p, s.receivedTokens p ≤ (s.peer p.other).shared.sentTokens.length
  mirrored : ∀ p, (s.peer p).shared.Mirrored
  theirs : ∀ p, (s.peer p).shared.staticTokens.theirs.Mirrors
    ((s.peer p.other).shared.sentTokens.take (s.receivedTokens p))
  redeemable : ∀ p, ∀ x ∈ s.sent p, x.Redeemable (s.peer p).shared.sentTokens
  addressed : ∀ p, ∀ x ∈ s.sent p, x.Addressed (i.seenBy p).peerId
  opens_eq : ∀ p, opens (s.sent p) = List.range (opens (s.sent p)).length
  covers_eq : ∀ p, covers (s.sent p) = opens (s.delivered p)
  framed : ∀ p, Framed i s p
  stage : ∀ p, Stage i s p

variable {i : AoiIntersection} {s : Pair σ} {p : Role}

section Congr

variable {s' : Pair σ}

omit [Storage σ] in
theorem delivered_congr (hsent : s'.sent = s.sent) (hreceived : s'.received = s.received) :
    s'.delivered = s.delivered := by
  unfold delivered
  rw [hsent, hreceived]

omit [Storage σ] in
theorem inFlight_congr (hsent : s'.sent = s.sent) (hreceived : s'.received = s.received) :
    s'.inFlight = s.inFlight := by
  unfold inFlight
  rw [hsent, hreceived]

theorem Framed.congr (h : Framed i s p) (hsent : s'.sent = s.sent)
    (hreceived : s'.received = s.received)
    (hentry : (s'.peer p).entryState = (s.peer p).entryState) : Framed i s' p := by
  obtain ⟨φ, ψ, htrace, hmatch, hflight, hend⟩ := h
  refine ⟨φ, ψ, ?_, ?_, ?_, ?_⟩
  · rw [delivered_congr hsent hreceived]
    exact htrace
  · rw [hentry]
    exact hmatch
  · rw [inFlight_congr hsent hreceived]
    exact hflight
  · rw [hsent]
    exact hend

omit [Storage σ] in
/-- How far a peer is does not depend on its tokens. -/
theorem Stage.congr (h : Stage i s p) (hsent : s'.sent = s.sent)
    (hreceived : s'.received = s.received) (hinbox : (s'.peer p).inbox = (s.peer p).inbox)
    (htargets : (s'.peer p).targets = (s.peer p).targets)
    (houtputs : (s'.peer p).shared.outputs = (s.peer p).shared.outputs)
    (hentry : (s'.peer p).entryState = (s.peer p).entryState) : Stage i s' p := by
  have hdelivered := delivered_congr hsent hreceived
  cases h with
  | waiting hbox hlookup hout hnil hzero =>
      exact .waiting (by rw [hinbox, hbox]) (by rw [htargets, hlookup]) (by rw [houtputs, hout])
        (by rw [hsent, hnil]) (by rw [hreceived, hzero])
  | active t ht =>
      refine .active t ⟨by rw [hinbox, ht.inbox], by rw [htargets, ht.lookup],
        by rw [houtputs, ht.outputs], ht.intersection, ?_, ?_, ?_, ?_, ?_, ?_⟩
      · rw [hsent]
        exact ht.ourRangeCounter
      · rw [hdelivered]
        exact ht.theirRangeCounter
      · rw [hsent, hdelivered]
        exact ht.uncovered
      · rw [hreceived]
        exact ht.started
      · rw [hsent]
        exact ht.initiated
      · rw [hentry]
        exact ht.incomplete
  | done hbox hlookup hcompleted hinitiated hpos hcovered hempty =>
      refine .done (by rw [hinbox, hbox]) (by rw [htargets, hlookup]) ?_ ?_ ?_ ?_ ?_
      · unfold Completed
        rw [houtputs]
        exact hcompleted
      · rw [hsent]
        exact hinitiated
      · rw [hreceived]
        exact hpos
      · rw [hsent, hdelivered]
        exact hcovered
      · rw [inFlight_congr hsent hreceived]
        exact hempty

end Congr

/-! ## What the invariant says about the tokens -/

/-- A peer that sends more tokens leaves those that are received already. -/
theorem Inv.receivedTokens_le_after (h : Inv i s) {s' : Pair σ}
    (hother : s'.peer p.other = s.peer p.other) (hreceived : s'.receivedTokens = s.receivedTokens)
    (hsent : (s.peer p).shared.sentTokens <+: (s'.peer p).shared.sentTokens) (p' : Role) :
    s'.receivedTokens p' ≤ (s'.peer p'.other).shared.sentTokens.length := by
  rw [hreceived]
  refine Role.forall_of (P := fun p' =>
    s.receivedTokens p' ≤ (s'.peer p'.other).shared.sentTokens.length) p ?_ ?_ p'
  · rw [hother]
    exact h.receivedTokens_le p
  · have hbound := h.receivedTokens_le p.other
    rw [Role.other_other] at hbound ⊢
    exact hbound.trans hsent.length_le

theorem Inv.theirs_after (h : Inv i s) {s' : Pair σ} (hother : s'.peer p.other = s.peer p.other)
    (hreceived : s'.receivedTokens = s.receivedTokens)
    (htheirs : (s'.peer p).shared.staticTokens.theirs = (s.peer p).shared.staticTokens.theirs)
    (hsent : (s.peer p).shared.sentTokens <+: (s'.peer p).shared.sentTokens) (p' : Role) :
    (s'.peer p').shared.staticTokens.theirs.Mirrors
      ((s'.peer p'.other).shared.sentTokens.take (s'.receivedTokens p')) := by
  rw [hreceived]
  refine Role.forall_of (P := fun p' => (s'.peer p').shared.staticTokens.theirs.Mirrors
    ((s'.peer p'.other).shared.sentTokens.take (s.receivedTokens p'))) p ?_ ?_ p'
  · rw [htheirs, hother]
    exact h.theirs p
  · -- what is received is a prefix of what was sent before
    obtain ⟨more, hmore⟩ := hsent
    have hmirrors := h.theirs p.other
    have hbound := h.receivedTokens_le p.other
    rw [Role.other_other] at hmirrors hbound ⊢
    rw [hother, ← hmore, List.take_append_of_le_length hbound]
    exact hmirrors

/-! ## What the invariant says about one direction -/

/-- What the peer was told to be covered is covered by a prefix of what it has
opened. -/
theorem Inv.covers_isPrefix (h : Inv i s) (p : Role) :
    covers (s.delivered p) ++ covers (s.inFlight p) <+: opens (s.sent p) := by
  rw [← covers_append, delivered_append_inFlight, h.covers_eq]
  have hpre := opens_delivered_isPrefix s p.other
  rwa [Role.other_other] at hpre

/-- The number of the next range that is opened is the one the receiver gives
it. -/
theorem Inv.opened_eq (h : Inv i s) {x : Sent} {rest : List Sent} {n : Nat}
    (hx : s.inFlight p = x :: rest) (hn : x.opened = some n) :
    n = (opens (s.delivered p)).length := by
  have heq := h.opens_eq p.other
  rw [← delivered_append_inFlight, hx, opens_append, opens_cons, hn] at heq
  exact eq_length_of_append_eq_range heq

/-- The range that the next message covers is open and not covered yet. -/
theorem Inv.covered_mem (h : Inv i s) {x : Sent} {rest : List Sent} {n : Nat}
    (hx : s.inFlight p = x :: rest) (hn : x.covers = some n) :
    n ∈ opens (s.sent p) ∧ n ∉ covers (s.delivered p) := by
  have hpre := h.covers_isPrefix p
  rw [hx, covers_cons, hn] at hpre
  refine ⟨hpre.subset (by simp), ?_⟩
  rw [h.opens_eq p] at hpre
  have hlen : n = (covers (s.delivered p)).length :=
    eq_length_of_append_eq_range (eq_range_of_isPrefix hpre)
  have hfirst := eq_range_of_isPrefix ((List.prefix_append _ _).trans hpre)
  rw [hfirst, ← hlen]
  simp

/-! ## The delivery of a message -/

theorem startPhase_control {x : Sent} {φ : Phase} (h : Phase.Step σ (startPhase p) x φ) :
    x.IsControl := by
  cases p with
  | alfie =>
      cases h with
      | fingerprint hs => simp [Sent.IsControl, hs]
      | empty hs _ => simp [Sent.IsControl, hs]
      | announce hs _ => simp [Sent.IsControl, hs]
  | betty =>
      cases h with
      | initial hs _ => simp [Sent.IsControl, hs]

/-- A peer that waits for no token knows the token of the entry, and it is the
one that authorises it. -/
theorem Inv.authorised (h : Inv i s) {x : Sent} (hmem : x ∈ s.sent p.other)
    {m : ReconciliationSendEntry} (hm : x.message = .sendEntry m)
    {res : Except Failure Unit × Reconciler σ}
    (hres : (s.peer p).receivedMessage x.message = some res) :
    ∃ a, (s.peer p).shared.staticTokens.authoriseEntryEventually m.entry m.staticTokenHandle
      m.dynamicToken = .ready (some a) := by
  obtain ⟨token, a, hget, hnew⟩ := h.redeemable p.other x hmem m hm
  have hbound := (h.theirs p).tryGet m.staticTokenHandle
  rw [List.getElem?_take] at hbound
  by_cases hlt : m.staticTokenHandle < s.receivedTokens p
  · rw [if_pos hlt, hget] at hbound
    refine ⟨a, ?_⟩
    unfold StaticTokens.authoriseEntryEventually
    rw [hbound]
    exact congrArg _ hnew
  · -- the token is still on its way, so the peer would wait
    rw [if_neg hlt] at hbound
    rw [hm] at hres
    simp [receivedMessage, StaticTokens.authoriseEntryEventually, hbound] at hres

/-- The next message of a peer that works on its target is processed without
an error. -/
theorem Inv.deliver_active [WillowDataModel] (hlaw : Storage.NeverFails σ) (h : Inv i s)
    {t : Target} (ht : Active i s p t) {s' : Pair σ} (hstep : step s (.deliver p) = some s') :
    ∃ x rest t' φ φ' new ψ, Delivery i s s' p x rest t t' φ' new ∧
      Trace (Phase.Step σ) (startPhase p) (s.delivered p) φ ∧ Phase.Step σ φ x φ' ∧
      Trace (Phase.Step σ) φ' rest ψ ∧ (ψ = .idle true ∨ ψ = .fresh ∧ s.sent p.other = []) ∧
      x.Addressed (i.seenBy p).id := by
  obtain ⟨x, res, r, -, hget, hres, rfl⟩ := step_deliver hstep
  have hnext : s.inFlight p = x :: (s.sent p.other).drop (s.received p + 1) := by
    obtain ⟨hlt, hx⟩ := List.getElem?_eq_some_iff.mp hget
    unfold inFlight
    rw [List.drop_eq_getElem_cons hlt, hx]
  have hmem : x ∈ s.sent p.other := List.mem_of_getElem? hget
  have haddr : x.Addressed (i.seenBy p).id := by
    have := h.addressed p.other x hmem
    rwa [AoiIntersection.seenBy_peerId] at this
  obtain ⟨φ, ψ, hdelivered, hmatch, hflight, hend⟩ := h.framed p
  rw [hnext] at hflight
  cases hflight with
  | @cons _ φ' _ _ _ hφ hrest =>
      have hcovers : ∀ n, x.covers = some n → n ∈ t.ourUncoveredRanges := fun n hn =>
        (ht.uncovered n).mpr (h.covered_mem hnext hn)
      obtain ⟨r', t', new, hr', hhandled⟩ := receivedMessage_handled hlaw ht.lookup hmatch hφ haddr
        hcovers fun m hm => h.authorised hmem hm hres
      obtain ⟨rfl, rfl⟩ := Prod.mk.inj (Option.some.inj (hres.symm.trans hr'))
      refine ⟨x, _, t', φ, φ', new, ψ, ⟨hnext, ?_, ?_, ?_, ?_, rfl, ?_, ?_⟩, hdelivered, hφ, hrest,
        hend, haddr⟩
      · simpa [update] using hhandled
      · simp [update, Function.update_of_ne p.other_ne]
      · simp
      · simp [Function.update_of_ne p.other_ne]
      · simp [update]
      · simp [update, Function.update_of_ne p.other_ne]

section Delivery

variable {s' : Pair σ} {x : Sent} {rest new : List Sent} {t t' : Target} {φ φ' ψ : Phase}

/-- The numbers of the ranges that the peer has opened afterwards. -/
theorem opens_after (h : Inv i s) (ht : Active i s p t)
    (hd : Delivery i s s' p x rest t t' φ' new) (hacc : Accounts σ t t' x new) :
    opens (s'.sent p) = List.range (opens (s'.sent p)).length := by
  rw [hd.sent_self, opens_append, List.length_append]
  have hopens := hacc.opens_eq
  rw [ht.ourRangeCounter] at hopens
  rw [List.range_eq_range', ← List.range'_append_1, ← List.range_eq_range', ← h.opens_eq p,
    Nat.zero_add, ← hopens]

/-- What the peer has covered is what the other one has opened in the messages
that it has processed. -/
theorem covers_after (h : Inv i s) (ht : Active i s p t)
    (hd : Delivery i s s' p x rest t t' φ' new) (hacc : Accounts σ t t' x new) :
    covers (s'.sent p) = opens (s'.delivered p) := by
  rw [hd.sent_self, hd.delivered_self, covers_append, opens_append, h.covers_eq p, hacc.covers_eq,
    opens_cons, opens_nil, List.append_nil]
  cases hopened : x.opened with
  | none => rfl
  | some n => simp [h.opened_eq hd.next hopened, ht.theirRangeCounter]

/-- The pending ranges of the peer afterwards. -/
theorem uncovered_after (h : Inv i s) (ht : Active i s p t)
    (hd : Delivery i s s' p x rest t t' φ' new) (hacc : Accounts σ t t' x new) (n : Nat) :
    n ∈ t'.ourUncoveredRanges ↔ n ∈ opens (s'.sent p) ∧ n ∉ covers (s'.delivered p) := by
  -- a new number is larger than all that were covered
  have hnew : n ∈ opens new → n ∉ covers (s.delivered p) ∧ n ∉ x.covers.toList := by
    intro hn
    have hge : (opens (s.sent p)).length ≤ n := by
      rw [hacc.opens_eq, ht.ourRangeCounter] at hn
      exact (List.mem_range'_1.mp hn).1
    have hlt : ∀ m ∈ covers (s.delivered p) ++ covers (s.inFlight p), m < n := by
      intro m hm
      have hmem := (h.covers_isPrefix p).subset hm
      rw [h.opens_eq p] at hmem
      exact lt_of_lt_of_le (List.mem_range.mp hmem) hge
    rw [hd.next, covers_cons] at hlt
    exact ⟨fun hmem => lt_irrefl n (hlt n (by simp [hmem])),
      fun hmem => lt_irrefl n (hlt n (List.mem_append_right _ (List.mem_append_left _ hmem)))⟩
  rw [hacc.uncovered, hd.sent_self, hd.delivered_self, opens_append, covers_append, covers_cons,
    covers_nil, List.append_nil]
  simp only [Finset.mem_union, Finset.mem_sdiff, ht.uncovered, List.mem_toFinset, List.mem_append,
    Option.mem_toFinset, Option.mem_toList] at hnew ⊢
  tauto

/-- A peer that has not completed its target keeps working on it. -/
theorem active_after (h : Inv i s) (ht : Active i s p t)
    (hd : Delivery i s s' p x rest t t' φ' new) (hacc : Accounts σ t t' x new)
    (hφ : Trace (Phase.Step σ) (startPhase p) (s.delivered p) φ) (hstep : Phase.Step σ φ x φ')
    (hopen : ¬ (t'.isComplete && (s'.peer p).entryState.isNone) = true) : Active i s' p t' := by
  have htarget := hd.handled.target
  rw [if_neg hopen] at htarget
  have hstarted : t'.started = true := by
    rcases Nat.eq_zero_or_pos (s.received p) with hzero | hpos
    · -- the first message is about a range
      have hnil : s.delivered p = [] := by simp [delivered, hzero]
      rw [hnil] at hφ
      cases hφ
      exact hacc.started (Or.inr (startPhase_control hstep))
    · exact hacc.started (Or.inl (ht.started.mpr hpos))
  refine ⟨hd.handled.inbox.trans ht.inbox, htarget.1, htarget.2.trans ht.outputs,
    hacc.intersection.trans ht.intersection, ?_, ?_, uncovered_after h ht hd hacc, ?_, ?_, ?_⟩
  · rw [hacc.ourRangeCounter, ht.ourRangeCounter, hd.sent_self, opens_append, List.length_append]
  · rw [hacc.theirRangeCounter, ht.theirRangeCounter, hd.delivered_self, opens_append,
      List.length_append, opens_cons, opens_nil, List.append_nil]
  · rw [hd.received_self]
    exact ⟨fun _ => Nat.succ_pos _, fun _ => hstarted⟩
  · intro halfie
    rw [hd.sent_self]
    simp [ht.initiated halfie]
  · rintro ⟨hcomplete, hidle⟩
    exact hopen (by simp [hcomplete, hidle])

/-- A peer that has completed its target has no pending range and nothing on
its way. -/
theorem done_after (h : Inv i s) (ht : Active i s p t)
    (hd : Delivery i s s' p x rest t t' φ' new) (hacc : Accounts σ t t' x new)
    (hstep : Phase.Step σ φ x φ') (hrest : Trace (Phase.Step σ) φ' rest ψ)
    (hend : ψ = .idle true ∨ ψ = .fresh ∧ s.sent p.other = [])
    (hdone : (t'.isComplete && (s'.peer p).entryState.isNone) = true) : Stage i s' p := by
  have htarget := hd.handled.target
  rw [if_pos hdone] at htarget
  obtain ⟨hcomplete, hidle⟩ := Bool.and_eq_true_iff.mp hdone
  have hopens := opens_after h ht hd hacc
  have hpre : covers (s'.delivered p) ++ covers rest <+: opens (s'.sent p) := by
    have hbefore := h.covers_isPrefix p
    rw [hd.next, covers_cons] at hbefore
    rw [hd.delivered_self, hd.sent_self, covers_append, covers_cons, covers_nil, List.append_nil,
      List.append_assoc, opens_append]
    exact hbefore.trans (List.prefix_append _ _)
  have hall : opens (s'.sent p) ⊆ covers (s'.delivered p) := by
    intro n hn
    by_contra hnot
    have hpending := (uncovered_after h ht hd hacc n).mpr ⟨hn, hnot⟩
    have hempty : t'.ourUncoveredRanges = ∅ := by
      have := (Bool.and_eq_true_iff.mp hcomplete).2
      simpa using this
    rw [hempty] at hpending
    cases hpending
  have hnodup : (opens (s'.sent p)).Nodup := by
    rw [hopens]
    exact List.nodup_range
  have hcovered : covers (s'.delivered p) = opens (s'.sent p) :=
    ((List.prefix_append _ _).trans hpre).eq_of_length_le
      (List.subperm_of_subset hnodup hall).length_le
  -- the messages that are left cover nothing, so there are none
  have hnone : covers rest = [] := by
    rw [hcovered] at hpre
    have := hpre.length_le
    rw [List.length_append] at this
    exact List.eq_nil_of_length_eq_zero (by omega)
  have hψ : ψ = .idle true := by
    rcases hend with hψ | ⟨-, hnil⟩
    · exact hψ
    · have hmem : x ∈ s.sent p.other := by
        rw [← delivered_append_inFlight, hd.next]
        simp
      rw [hnil] at hmem
      cases hmem
  have hidle' : ∃ covered, φ' = .idle covered := by
    have hmatch := hd.handled.entryState
    rw [Option.isNone_iff_eq_none.mp hidle] at hmatch
    cases φ' with
    | fresh => exact absurd rfl hstep.ne_fresh
    | idle covered => exact ⟨covered, rfl⟩
    | announced _ => cases hmatch
    | entry _ _ _ =>
        obtain ⟨_, heq, -⟩ := hmatch
        cases heq
  obtain ⟨covered, rfl⟩ := hidle'
  rw [hψ] at hrest
  have hnil := (eq_nil_of_trace hrest hnone).1
  refine .done (hd.handled.inbox.trans ht.inbox) htarget.1 ?_ ?_ ?_ hcovered.symm
    (hd.inFlight_self.trans hnil)
  · unfold Completed
    have hi : t'.intersection = i.seenBy p := hacc.intersection.trans ht.intersection
    have hmem := htarget.2
    rw [hi] at hmem
    simpa using hmem
  · intro halfie
    rw [hd.sent_self]
    simp [ht.initiated halfie]
  · rw [hd.received_self]
    exact Nat.succ_pos _

/-- The other peer does not notice, and a peer that has completed its target
is sent nothing. -/
theorem stage_other (h : Inv i s)
    (hd : Delivery i s s' p x rest t t' φ' new) (hacc : Accounts σ t t' x new) :
    Stage i s' p.other := by
  have hle : s.received p.other ≤ (s.sent p).length := by
    simpa using h.received_le p.other
  have hdelivered := hd.delivered_other hle
  have hpeer := hd.peer_other
  cases h.stage p.other with
  | waiting hinbox hlookup houtputs hsent hreceived =>
      exact .waiting (hpeer ▸ hinbox) (hpeer ▸ hlookup) (hpeer ▸ houtputs) (hd.sent_other.trans hsent)
        (hd.received_other.trans hreceived)
  | active u hu =>
      exact .active u ⟨hpeer ▸ hu.inbox, hpeer ▸ hu.lookup, hpeer ▸ hu.outputs, hu.intersection,
        hd.sent_other ▸ hu.ourRangeCounter, hdelivered ▸ hu.theirRangeCounter,
        by rw [hd.sent_other, hdelivered]; exact hu.uncovered, hd.received_other ▸ hu.started,
        hd.sent_other ▸ hu.initiated, hpeer ▸ hu.incomplete⟩
  | done hinbox hlookup hcompleted hinitiated hreceived hcovered hinFlight =>
      refine .done (hpeer ▸ hinbox) (hpeer ▸ hlookup) ?_ (hd.sent_other ▸ hinitiated)
        (hd.received_other.symm ▸ hreceived) ?_ ?_
      · unfold Completed
        rw [hpeer]
        exact hcompleted
      · rw [hd.sent_other, hdelivered]
        exact hcovered
      · -- all openings of the other peer are answered, so this one opens no range
        have hopened : x.opened = none := by
          cases hopened : x.opened with
          | none => rfl
          | some n =>
              have hlen := congrArg List.length hcovered
              have hle₁ : (covers (s.delivered p.other)).length ≤ (opens (s.delivered p)).length := by
                rw [← h.covers_eq p]
                have := (delivered_isPrefix s p.other).filterMap (·.covers)
                rw [Role.other_other] at this
                exact this.length_le
              have hlt : (opens (s.delivered p)).length < (opens (s.sent p.other)).length := by
                rw [← delivered_append_inFlight, hd.next, opens_append, opens_cons, hopened]
                simp
              omega
        have hnone : covers new = [] := by
          rw [hacc.covers_eq, hopened]
          rfl
        have hnil := (eq_nil_of_trace hacc.trace hnone).1
        rw [hd.inFlight_other hle, hinFlight, hnil]
        rfl

/-- The messages on their way to the other peer are completed by an answer. -/
theorem framed_other (h : Inv i s) (ht : Active i s p t)
    (hd : Delivery i s s' p x rest t t' φ' new) (hacc : Accounts σ t t' x new) :
    Framed i s' p.other := by
  have hle : s.received p.other ≤ (s.sent p).length := by
    simpa using h.received_le p.other
  obtain ⟨φ, ψ, hdelivered, hmatch, hflight, hend⟩ := h.framed p.other
  refine ⟨φ, .idle true, ?_, hd.peer_other ▸ hmatch, ?_, Or.inl rfl⟩
  · rw [hd.delivered_other hle]
    exact hdelivered
  · rw [hd.inFlight_other hle]
    rcases hend with rfl | ⟨rfl, hnil⟩
    · exact hflight.append hacc.trace
    · -- only Betty starts fresh, and Alfie has sent his first message
      rw [Role.other_other] at hnil
      have hempty : s.inFlight p.other = [] := by
        unfold inFlight
        rw [Role.other_other, hnil, List.drop_nil]
      have hstart : s.delivered p.other = [] := by
        unfold delivered
        rw [Role.other_other, hnil, List.take_nil]
      rw [hempty] at hflight
      cases hflight
      rw [hstart] at hdelivered
      cases p with
      | alfie => exact absurd hnil (ht.initiated rfl)
      | betty => cases hdelivered

/-- **The delivery of a message keeps the invariant.** -/
theorem Inv.of_delivery (hlaw : Storage.NeverFails σ) (h : Inv i s) (ht : Active i s p t)
    (hd : Delivery i s s' p x rest t t' φ' new)
    (hφ : Trace (Phase.Step σ) (startPhase p) (s.delivered p) φ) (hstep : Phase.Step σ φ x φ')
    (hrest : Trace (Phase.Step σ) φ' rest ψ)
    (hend : ψ = .idle true ∨ ψ = .fresh ∧ s.sent p.other = [])
    (haddr : x.Addressed (i.seenBy p).id) : Inv i s' := by
  have hacc : Accounts σ t t' x new := hd.handled.reacts.accounts hlaw haddr
  have hle : s.received p.other ≤ (s.sent p).length := by
    simpa using h.received_le p.other
  constructor
  case role =>
    refine Role.forall_of p (hd.handled.ourRole.trans (h.role p)) ?_
    rw [hd.peer_other]
    exact h.role p.other
  case running => exact Role.forall_of p hd.failed_self (hd.failed_other.trans (h.running _))
  case received_le =>
    refine Role.forall_of p ?_ ?_
    · rw [hd.sent_other, hd.received_self]
      -- the message was one of those in flight
      have hlen := congrArg List.length hd.next
      rw [inFlight, List.length_drop, List.length_cons] at hlen
      omega
    · rw [Role.other_other, hd.received_other, hd.sent_self, List.length_append]
      omega
  case receivedTokens_le =>
    exact h.receivedTokens_le_after hd.peer_other hd.receivedTokens hd.handled.sentTokens
  case mirrored =>
    refine Role.forall_of p (hd.handled.mirrored (h.mirrored p)) ?_
    rw [hd.peer_other]
    exact h.mirrored p.other
  case theirs =>
    exact h.theirs_after hd.peer_other hd.receivedTokens hd.handled.theirs hd.handled.sentTokens
  case redeemable =>
    refine Role.forall_of p ?_ ?_
    · rw [hd.sent_self]
      intro y hy
      rcases List.mem_append.mp hy with hy | hy
      · exact (h.redeemable p y hy).mono hd.handled.sentTokens
      · exact hd.handled.redeemable (h.mirrored p) y hy
    · rw [hd.sent_other, hd.peer_other]
      exact h.redeemable p.other
  case addressed =>
    refine Role.forall_of p ?_ ?_
    · rw [hd.sent_self]
      intro y hy
      rcases List.mem_append.mp hy with hy | hy
      · exact h.addressed p y hy
      · exact ht.intersection ▸ hacc.addressed y hy
    · rw [hd.sent_other]
      exact h.addressed p.other
  case opens_eq =>
    refine Role.forall_of p (opens_after h ht hd hacc) ?_
    rw [hd.sent_other]
    exact h.opens_eq p.other
  case covers_eq =>
    -- what the reply covers is what the message has opened
    refine Role.forall_of p (covers_after h ht hd hacc) ?_
    rw [hd.sent_other, hd.delivered_other hle]
    exact h.covers_eq p.other
  case framed =>
    -- the peer goes on from the phase it was in
    refine Role.forall_of p ⟨φ', ψ, ?_, hd.handled.entryState, ?_, ?_⟩ (framed_other h ht hd hacc)
    · rw [hd.delivered_self]
      exact hφ.concat hstep
    · rw [hd.inFlight_self]
      exact hrest
    · rw [hd.sent_other]
      exact hend
  case stage =>
    refine Role.forall_of p ?_ (stage_other h hd hacc)
    -- either nothing is left to do, or the peer goes on
    by_cases hdone : (t'.isComplete && (s'.peer p).entryState.isNone) = true
    · exact done_after h ht hd hacc hstep hrest hend hdone
    · exact .active t' (active_after h ht hd hacc hφ hstep hdone)

end Delivery

/-! ## The start of a target -/

/-- What a peer sends when it takes the target from its inbox. -/
structure Initiates (store : σ) (range : Range3d) (p : Role) (t : Target)
    (new : List Sent) : Prop where
  started : t.started = false
  ourRangeCounter : t.ourRangeCounter = (opens new).length
  theirRangeCounter : t.theirRangeCounter = 0
  uncovered : t.ourUncoveredRanges = (opens new).toFinset
  opens_eq : opens new = List.range (opens new).length
  covers_eq : covers new = []
  addressed : ∀ x ∈ new, x.Addressed t.intersection.peerId
  shape : (p = .alfie ∧ ∃ fp, Storage.fingerprint store t.intersection.namespaceId range = .ok fp ∧
      new = [Target.fingerprintMessage { intersection := t.intersection } range fp none]) ∨
    p = .betty ∧ new = []

/-- Alfie sends the fingerprint of the whole area; Betty waits for it. -/
theorem init_initiates [WillowDataModel] (hlaw : Storage.NeverFails σ) {sh : Shared σ}
    {range : Range3d} (i : AoiIntersection) (hrange : i.area.toRange = some range) :
    ∃ t sh' new, Target.init sh i = (.ok t, sh') ∧ Emits (fun _ => True) sh sh' new ∧
      t.intersection = i ∧ Initiates sh.store range sh.ourRole t new := by
  cases hrole : sh.ourRole with
  | betty =>
      refine ⟨{ intersection := i }, sh, [], by simp [Target.init, hrole], .refl sh, rfl, ?_⟩
      exact ⟨rfl, rfl, rfl, rfl, rfl, rfl, by simp, Or.inr ⟨rfl, rfl⟩⟩
  | alfie =>
      obtain ⟨fingerprint, hfp⟩ := hlaw.fingerprint sh.store i.namespaceId range
      set t : Target := { intersection := i } with ht
      obtain ⟨-, hemits⟩ := sendFingerprint_spec sh t range fingerprint none
      refine ⟨t.markOurNextRangePending.2, _, _, ?_, hemits.mono fun _ _ _ => trivial, rfl, ?_⟩
      · simp only [Target.init, hrole, hrange, hfp]
        rfl
      · refine ⟨rfl, rfl, rfl, rfl, rfl, rfl, ?_, Or.inl ⟨rfl, fingerprint, hfp, rfl⟩⟩
        intro x hx
        obtain rfl := List.mem_singleton.mp hx
        exact ⟨rfl, rfl⟩

/-- A peer has taken the target from its inbox. -/
structure Initiation (i : AoiIntersection) (range : Range3d) (s s' : Pair σ) (p : Role)
    (t : Target) (new : List Sent) : Prop where
  initiates : Initiates (s.peer p).shared.store range p t new
  intersection : t.intersection = i.seenBy p
  emits : Emits (fun _ => True) (s.peer p).shared (s'.peer p).shared new
  entryState : (s'.peer p).entryState = (s.peer p).entryState
  inbox : (s'.peer p).inbox = []
  lookup : (s'.peer p).targets.lookup (i.seenBy p).id = some t
  peer_other : s'.peer p.other = s.peer p.other
  received : s'.received = s.received
  receivedTokens : s'.receivedTokens = s.receivedTokens
  failed_self : s'.failed p = false
  failed_other : s'.failed p.other = s.failed p.other

section Initiation

variable {range : Range3d} {s' : Pair σ} {t : Target} {new : List Sent}

theorem Initiation.sent_other (h : Initiation i range s s' p t new) :
    s'.sent p.other = s.sent p.other := by
  unfold sent
  rw [h.peer_other]

theorem Initiation.sent_self (h : Initiation i range s s' p t new) (hsent : s.sent p = []) :
    s'.sent p = new := by
  have heq : s'.sent p = s.sent p ++ new := h.emits.sent
  rw [heq, hsent, List.nil_append]

/-- Nothing has been sent to the other peer before, so it is not done. -/
theorem Initiation.stage_other (hd : Initiation i range s s' p t new) (h : Inv i s)
    (hsent : s.sent p = []) : Stage i s' p.other := by
  have hzero : s.received p.other = 0 := by
    have hle := h.received_le p.other
    rw [Role.other_other, hsent] at hle
    exact Nat.le_zero.mp hle
  have hdelivered : s'.delivered p.other = s.delivered p.other := by
    unfold delivered
    rw [hd.received, hzero, List.take_zero, List.take_zero]
  have hpeer := hd.peer_other
  cases h.stage p.other with
  | waiting hinbox hlookup houtputs hsent hreceived =>
      exact .waiting (hpeer ▸ hinbox) (hpeer ▸ hlookup) (hpeer ▸ houtputs)
        (hd.sent_other.trans hsent) (hd.received ▸ hreceived)
  | active u hu =>
      exact .active u ⟨hpeer ▸ hu.inbox, hpeer ▸ hu.lookup, hpeer ▸ hu.outputs, hu.intersection,
        hd.sent_other ▸ hu.ourRangeCounter, hdelivered ▸ hu.theirRangeCounter,
        by rw [hd.sent_other, hdelivered]; exact hu.uncovered, hd.received ▸ hu.started,
        hd.sent_other ▸ hu.initiated, hpeer ▸ hu.incomplete⟩
  | done _ _ _ _ hreceived _ _ =>
      rw [hzero] at hreceived
      exact absurd hreceived (lt_irrefl 0)

/-- The peer that has just taken the target works on it. -/
theorem Initiation.active (hd : Initiation i range s s' p t new) (hsent : s.sent p = [])
    (hreceived : s.received p = 0) (houtputs : (s.peer p).shared.outputs = []) :
    Active i s' p t := by
  have hnew := hd.initiates
  have hdelivered : s'.delivered p = [] := by
    unfold delivered
    rw [hd.received, hreceived, List.take_zero]
  constructor
  case inbox => exact hd.inbox
  case lookup => exact hd.lookup
  case outputs => exact hd.emits.keeps.outputs.trans houtputs
  case intersection => exact hd.intersection
  case ourRangeCounter => rw [hd.sent_self hsent, hnew.ourRangeCounter]
  case theirRangeCounter => rw [hdelivered, hnew.theirRangeCounter]; rfl
  case uncovered =>
    intro n
    rw [hnew.uncovered, hd.sent_self hsent, hdelivered, List.mem_toFinset]
    simp
  case started =>
    rw [hnew.started, hd.received, hreceived]
    simp
  case initiated =>
    intro halfie
    rw [hd.sent_self hsent]
    rcases hnew.shape with ⟨-, fp, -, rfl⟩ | ⟨hbetty, -⟩
    · simp
    · rw [halfie] at hbetty
      cases hbetty
  case incomplete =>
    rintro ⟨hcomplete, -⟩
    simp [Target.isComplete, hnew.started] at hcomplete

/-- The messages on their way to the other peer start with the fingerprint. -/
theorem Initiation.framed_other (hd : Initiation i range s s' p t new) (h : Inv i s)
    (hsent : s.sent p = []) : Framed i s' p.other := by
  have hdelivered : s.delivered p.other = [] := by
    unfold delivered
    rw [Role.other_other, hsent, List.take_nil]
  have hdelivered' : s'.delivered p.other = [] := by
    unfold delivered
    have hle := h.received_le p.other
    rw [Role.other_other, hsent] at hle
    rw [hd.received, Nat.le_zero.mp hle, List.take_zero]
  have hinFlight : s'.inFlight p.other = new := by
    have happend := delivered_append_inFlight s' p.other
    rwa [hdelivered', List.nil_append, Role.other_other, hd.sent_self hsent] at happend
  obtain ⟨φ, ψ, htrace, hmatch, -, -⟩ := h.framed p.other
  rw [hdelivered] at htrace
  cases htrace
  refine ⟨startPhase p.other, .idle true, ?_, hd.peer_other ▸ hmatch, ?_, Or.inl rfl⟩
  · rw [hdelivered']
    exact .nil
  · rw [hinFlight]
    rcases hd.initiates.shape with ⟨rfl, fp, -, rfl⟩ | ⟨rfl, rfl⟩
    · exact .cons (.initial rfl rfl) .nil
    · exact .nil

/-- The start of a target keeps the invariant. -/
theorem Inv.of_initiation (h : Inv i s) (hd : Initiation i range s s' p t new) (hsent : s.sent p = [])
    (hreceived : s.received p = 0) (houtputs : (s.peer p).shared.outputs = []) : Inv i s' := by
  have hnew := hd.initiates
  have hkeep := hd.emits.keeps
  -- the other peer has had nothing to receive
  have hzero : s.received p.other = 0 := by
    have hle := h.received_le p.other
    rw [Role.other_other, hsent] at hle
    exact Nat.le_zero.mp hle
  have hdelivered : ∀ p', s'.delivered p' = [] := by
    refine Role.forall_of p ?_ ?_
    · unfold delivered
      rw [hd.received, hreceived, List.take_zero]
    · unfold delivered
      rw [hd.received, hzero, List.take_zero]
  constructor
  case role =>
    refine Role.forall_of p (hkeep.ourRole.trans (h.role p)) ?_
    rw [hd.peer_other]
    exact h.role p.other
  case running => exact Role.forall_of p hd.failed_self (hd.failed_other.trans (h.running _))
  case received_le =>
    refine Role.forall_of p ?_ ?_
    · rw [hd.received, hreceived]
      exact Nat.zero_le _
    · rw [hd.received, hzero]
      exact Nat.zero_le _
  case receivedTokens_le =>
    exact h.receivedTokens_le_after hd.peer_other hd.receivedTokens hd.emits.sentTokens
  case mirrored =>
    refine Role.forall_of p (hd.emits.mirrored (h.mirrored p)) ?_
    rw [hd.peer_other]
    exact h.mirrored p.other
  case theirs =>
    exact h.theirs_after hd.peer_other hd.receivedTokens hkeep.theirs hd.emits.sentTokens
  case redeemable =>
    refine Role.forall_of p ?_ ?_
    · rw [hd.sent_self hsent]
      exact hd.emits.redeemable (h.mirrored p)
    · rw [hd.sent_other, hd.peer_other]
      exact h.redeemable p.other
  case addressed =>
    refine Role.forall_of p ?_ ?_
    · rw [hd.sent_self hsent, ← hd.intersection]
      exact hnew.addressed
    · rw [hd.sent_other]
      exact h.addressed p.other
  case opens_eq =>
    refine Role.forall_of p ?_ ?_
    · rw [hd.sent_self hsent]
      exact hnew.opens_eq
    · rw [hd.sent_other]
      exact h.opens_eq p.other
  case covers_eq =>
    refine Role.forall_of p ?_ ?_
    · rw [hd.sent_self hsent, hdelivered, hnew.covers_eq]
      rfl
    · have hcovers := h.covers_eq p.other
      unfold delivered at hcovers
      rw [hzero, List.take_zero] at hcovers
      rw [hd.sent_other, hdelivered]
      exact hcovers
  case framed =>
    refine Role.forall_of p ?_ (hd.framed_other h hsent)
    obtain ⟨φ, ψ, htrace, hmatch, hflight, hend⟩ := h.framed p
    refine ⟨φ, ψ, ?_, hd.entryState ▸ hmatch, ?_, ?_⟩
    · unfold delivered at htrace ⊢
      rw [hd.sent_other, hd.received]
      exact htrace
    · unfold inFlight at hflight ⊢
      rw [hd.sent_other, hd.received]
      exact hflight
    · rw [hd.sent_other]
      exact hend
  case stage =>
    -- the target leaves the inbox
    exact Role.forall_of p (.active t (hd.active hsent hreceived houtputs)) (hd.stage_other h hsent)

end Initiation

/-- What taking the target from the inbox does. -/
theorem Inv.initiation [WillowDataModel] (hlaw : Storage.NeverFails σ) {range : Range3d}
    (hrange : i.area.toRange = some range) (h : Inv i s) {s' : Pair σ}
    (hstep : step s (.takeInput p) = some s') :
    s.sent p = [] ∧ s.received p = 0 ∧ (s.peer p).shared.outputs = [] ∧
      ∃ t new, Initiation i range s s' p t new := by
  obtain ⟨res, r, -, htake, rfl⟩ := step_takeInput hstep
  cases h.stage p with
  | active t ht => simp [Reconciler.takeInput, ht.inbox] at htake
  | done hinbox _ _ _ _ _ _ => simp [Reconciler.takeInput, hinbox] at htake
  | waiting hinbox hlookup houtputs hsent hreceived =>
      have harea : (i.seenBy p).area.toRange = some range := by
        rw [AoiIntersection.area, AoiIntersection.seenBy_intersection]
        exact hrange
      obtain ⟨t, sh', new, hinit, hemits, hi, hnew⟩ :=
        @init_initiates _ _ _ _ hlaw (s.peer p).shared _ (i.seenBy p) harea
      rw [h.role p] at hnew
      obtain ⟨rfl, rfl⟩ : res = .ok () ∧ r = { s.peer p with
          shared := sh'
          inbox := []
          targets := (s.peer p).targets.insert (i.seenBy p).id t } := by
        simp only [Reconciler.takeInput, hinbox, hinit, Option.some.injEq, Prod.mk.injEq] at htake
        exact ⟨htake.1.symm, htake.2.symm⟩
      refine ⟨hsent, hreceived, houtputs, t, new, ?_⟩
      constructor
      case initiates => exact hnew
      case intersection => exact hi
      case emits => simpa [update] using hemits
      case entryState => simp [update]
      case inbox => simp [update]
      case lookup => simp [update]
      case peer_other => simp [update, Function.update_of_ne p.other_ne]
      case received => rfl
      case receivedTokens => rfl
      case failed_self => simp [update]
      case failed_other => simp [update, Function.update_of_ne p.other_ne]

/-- **Taking the target from the inbox keeps the invariant.** -/
theorem Inv.takeInput [WillowDataModel] (hlaw : Storage.NeverFails σ) {range : Range3d}
    (hrange : i.area.toRange = some range) (h : Inv i s) {s' : Pair σ}
    (hstep : step s (.takeInput p) = some s') : Inv i s' := by
  obtain ⟨hsent, hreceived, houtputs, t, new, hd⟩ := h.initiation hlaw hrange hstep
  exact h.of_initiation hd hsent hreceived houtputs

/-! ## The delivery of a token -/

/-- **Binding a token keeps the invariant.** -/
theorem Inv.deliverToken [WillowDataModel] (h : Inv i s) {s' : Pair σ}
    (hstep : step s (.deliverToken p) = some s') : Inv i s' := by
  obtain ⟨token, htoken, rfl⟩ := step_deliverToken hstep
  set s' : Pair σ := { s with
    peer := Function.update s.peer p { s.peer p with
      shared := { (s.peer p).shared with
        staticTokens := (s.peer p).shared.staticTokens.bindTheirs token } }
    receivedTokens := Function.update s.receivedTokens p (s.receivedTokens p + 1) } with hs'
  -- only the tokens of the other peer change
  have hself : s'.peer p = { s.peer p with
      shared := { (s.peer p).shared with
        staticTokens := (s.peer p).shared.staticTokens.bindTheirs token } } := by simp [hs']
  have hother : s'.peer p.other = s.peer p.other := by
    simp [hs', Function.update_of_ne p.other_ne]
  have hsent : s'.sent = s.sent := by
    refine funext (Role.forall_of p ?_ ?_)
    · unfold sent
      rw [hself]
    · unfold sent
      rw [hother]
  have htokens : ∀ p', (s'.peer p').shared.sentTokens = (s.peer p').shared.sentTokens :=
    Role.forall_of p (by rw [hself]) (by rw [hother])
  have hentry : ∀ p', (s'.peer p').entryState = (s.peer p').entryState :=
    Role.forall_of p (by rw [hself]) (by rw [hother])
  have hinbox : ∀ p', (s'.peer p').inbox = (s.peer p').inbox :=
    Role.forall_of p (by rw [hself]) (by rw [hother])
  have htargets : ∀ p', (s'.peer p').targets = (s.peer p').targets :=
    Role.forall_of p (by rw [hself]) (by rw [hother])
  have houtputs : ∀ p', (s'.peer p').shared.outputs = (s.peer p').shared.outputs :=
    Role.forall_of p (by rw [hself]) (by rw [hother])
  have hreceivedSelf : s'.receivedTokens p = s.receivedTokens p + 1 := by simp [hs']
  have hreceivedOther : s'.receivedTokens p.other = s.receivedTokens p.other := by
    simp [hs', Function.update_of_ne p.other_ne]
  constructor
  case role => exact Role.forall_of p (by rw [hself]; exact h.role p) (by rw [hother]; exact h.role _)
  case running => exact h.running
  case received_le =>
    rw [hsent]
    exact h.received_le
  case receivedTokens_le =>
    refine Role.forall_of p ?_ ?_
    · rw [htokens, hreceivedSelf]
      exact (List.getElem?_eq_some_iff.mp htoken).1
    · rw [htokens, hreceivedOther]
      exact h.receivedTokens_le p.other
  case mirrored =>
    refine Role.forall_of p ?_ ?_
    · rw [hself]
      exact h.mirrored p
    · rw [hother]
      exact h.mirrored p.other
  case theirs =>
    refine Role.forall_of p ?_ ?_
    · rw [hother, hself, hreceivedSelf, List.take_add_one, htoken]
      exact (h.theirs p).bind
    · rw [hother, htokens, hreceivedOther]
      exact h.theirs p.other
  case redeemable =>
    intro p'
    rw [hsent, htokens]
    exact h.redeemable p'
  case addressed =>
    rw [hsent]
    exact h.addressed
  case opens_eq =>
    rw [hsent]
    exact h.opens_eq
  case covers_eq =>
    rw [hsent, delivered_congr hsent rfl]
    exact h.covers_eq
  case framed => exact fun p' => (h.framed p').congr hsent rfl (hentry p')
  case stage =>
    exact fun p' => (h.stage p').congr hsent rfl (hinbox p') (htargets p') (houtputs p') (hentry p')

/-! ## Every message finds its target -/

/-- Nothing is on its way to Alfie before he has sent the fingerprint, and
Betty leaves it on the channel while the target is in her inbox. -/
theorem Inv.not_waiting [WillowDataModel] (h : Inv i s) (hinbox : (s.peer p).inbox = [i.seenBy p])
    (hlookup : (s.peer p).targets.lookup (i.seenBy p).id = none) (hsent : s.sent p = [])
    (hreceived : s.received p = 0) : step s (.deliver p) = none := by
  by_contra hstep
  obtain ⟨s', hstep⟩ := Option.ne_none_iff_exists'.mp hstep
  obtain ⟨x, res, r, -, hget, hres, -⟩ := step_deliver hstep
  have hdelivered : s.delivered p = [] := by
    unfold delivered
    rw [hreceived, List.take_zero]
  have hinFlight : s.inFlight p = s.sent p.other := by
    have happend := delivered_append_inFlight s p
    rwa [hdelivered, List.nil_append] at happend
  obtain ⟨φ, ψ, htrace, -, hflight, hend⟩ := h.framed p
  have hmem : x ∈ s.sent p.other := List.mem_of_getElem? hget
  have hne : s.sent p.other ≠ [] := List.ne_nil_of_mem hmem
  rw [hdelivered] at htrace
  cases htrace
  cases p with
  | alfie =>
      -- all that Betty sends covers a range of Alfie's
      have hcovers : covers (s.inFlight .alfie) = [] := by
        rw [hinFlight, h.covers_eq]
        unfold delivered
        rw [Role.other_other, hsent, List.take_nil]
        rfl
      rcases hend with rfl | ⟨-, hnil⟩
      · rw [(eq_nil_of_trace hflight hcovers).1] at hinFlight
        exact hne hinFlight.symm
      · exact hne hnil
  | betty =>
      have hx : (s.inFlight .betty).head? = some x := by
        unfold inFlight
        rw [List.head?_drop]
        exact hget
      have haddr := h.addressed _ x hmem
      rw [AoiIntersection.seenBy_peerId] at haddr
      generalize s.inFlight .betty = flight at hflight hx
      cases hflight with
      | nil => cases hx
      | cons hfirst _ =>
          obtain rfl := Option.some.inj hx
          cases hfirst with
          | initial hs _ =>
              unfold Sent.Addressed at haddr
              rw [hs] at haddr hres
              obtain ⟨hhandles, -⟩ := haddr
              have hpending : (s.peer .betty).getEventually (i.seenBy .betty).id = none := by
                simp [getEventually, hlookup, hinbox]
              rw [receivedMessage, hhandles, hpending] at hres
              cases hres

/-- Only a peer that works on its target processes a message. -/
theorem Inv.active_of_deliver [WillowDataModel] (h : Inv i s) {s' : Pair σ}
    (hstep : step s (.deliver p) = some s') : ∃ t, Active i s p t := by
  cases h.stage p with
  | waiting hinbox hlookup _ hsent hreceived =>
      rw [h.not_waiting hinbox hlookup hsent hreceived] at hstep
      cases hstep
  | active t ht => exact ⟨t, ht⟩
  | done _ _ _ _ _ _ hinFlight =>
      obtain ⟨x, _, _, -, hget, -⟩ := step_deliver hstep
      have hlt := (List.getElem?_eq_some_iff.mp hget).1
      exact absurd (List.drop_eq_nil_iff.mp hinFlight) (not_le.mpr hlt)

/-- **The delivery of any message keeps the invariant.** -/
theorem Inv.deliver [WillowDataModel] (hlaw : Storage.NeverFails σ) (h : Inv i s) {s' : Pair σ}
    (hstep : step s (.deliver p) = some s') : Inv i s' := by
  obtain ⟨t, ht⟩ := h.active_of_deliver hstep
  obtain ⟨x, rest, t', φ, φ', new, ψ, hd, hφ, hphase, hrest, hend, haddr⟩ :=
    h.deliver_active hlaw ht hstep
  exact h.of_delivery hlaw ht hd hφ hphase hrest hend haddr

theorem Inv.start (i : AoiIntersection) (store : Role → σ) (sessionId : SessionId)
    (maxEagerPayloadSize : Role → U64) :
    Inv i (Pair.start i store sessionId maxEagerPayloadSize) where
  role _ := rfl
  running _ := rfl
  received_le _ := Nat.zero_le _
  receivedTokens_le _ := Nat.zero_le _
  mirrored _ := ResourceMap.mirrors_empty
  theirs _ := ResourceMap.mirrors_empty
  redeemable _ _ hx := by cases hx
  addressed _ _ hx := by cases hx
  opens_eq _ := rfl
  covers_eq _ := rfl
  framed p := by
    cases p with
    | alfie => exact ⟨.idle true, .idle true, .nil, rfl, .nil, Or.inl rfl⟩
    | betty => exact ⟨.fresh, .fresh, .nil, rfl, .nil, Or.inr ⟨rfl, rfl⟩⟩
  stage _ := .waiting rfl rfl rfl rfl rfl

/-- **Every step keeps the invariant.** -/
theorem Inv.step [WillowDataModel] (hlaw : Storage.NeverFails σ) {range : Range3d}
    (hrange : i.area.toRange = some range) (h : Inv i s) {a : Action} {s' : Pair σ}
    (hstep : Pair.step s a = some s') : Inv i s' := by
  cases a with
  | takeInput p => exact h.takeInput hlaw hrange hstep
  | deliver p => exact h.deliver hlaw hstep
  | deliverToken p => exact h.deliverToken hstep

/-- **The invariant holds in every run.** -/
theorem inv_of_reachable [WillowDataModel] (hlaw : Storage.NeverFails σ) {range : Range3d}
    (hrange : i.area.toRange = some range) {store : Role → σ} {sessionId : SessionId}
    {maxEagerPayloadSize : Role → U64}
    (h : Reachable step (fun _ _ => True) (Pair.start i store sessionId maxEagerPayloadSize) s) :
    Inv i s := by
  refine h.invariant (.start i store sessionId maxEagerPayloadSize) ?_
  intro s a s' hinv _ hstep
  exact hinv.step hlaw hrange hstep

/-! ## Completion -/

/-- A peer that has completed its target is done with it. -/
theorem Inv.done_of_completed (h : Inv i s) (hcompleted : s.Completed i p) :
    (s.peer p).inbox = [] ∧ s.sent .alfie ≠ [] ∧ opens (s.sent p) = covers (s.delivered p) ∧
      s.inFlight p = [] := by
  cases h.stage p with
  | waiting _ _ houtputs _ _ =>
      unfold Completed at hcompleted
      rw [houtputs] at hcompleted
      cases hcompleted
  | active t ht =>
      unfold Completed at hcompleted
      rw [ht.outputs] at hcompleted
      cases hcompleted
  | done hinbox _ _ hinitiated hreceived hcovered hinFlight =>
      refine ⟨hinbox, ?_, hcovered, hinFlight⟩
      cases p with
      | alfie => exact hinitiated rfl
      | betty =>
          have hpos := lt_of_lt_of_le hreceived (h.received_le .betty)
          exact List.ne_nil_of_length_pos hpos

/-- No step of the system changes a peer that has completed its target, but
for its tokens. -/
theorem Inv.step_completed [WillowDataModel] (h : Inv i s) (hcompleted : s.Completed i p)
    {a : Action} {s' : Pair σ} (hstep : Pair.step s a = some s') :
    s'.Completed i p ∧ s'.received p = s.received p := by
  obtain ⟨hinbox, -, -, hinFlight⟩ := h.done_of_completed hcompleted
  cases a with
  | takeInput p' =>
      obtain ⟨res, r, -, htake, rfl⟩ := step_takeInput hstep
      rcases Role.eq_or_eq_other p' p with rfl | rfl
      · simp [Reconciler.takeInput, hinbox] at htake
      · exact ⟨by simpa [Completed, update, Function.update_of_ne p'.other_ne] using hcompleted, rfl⟩
  | deliver p' =>
      obtain ⟨x, res, r, -, hget, -, rfl⟩ := step_deliver hstep
      rcases Role.eq_or_eq_other p' p with rfl | rfl
      · have hlt := (List.getElem?_eq_some_iff.mp hget).1
        exact absurd (List.drop_eq_nil_iff.mp hinFlight) (not_le.mpr hlt)
      · exact ⟨by simpa [Completed, update, Function.update_of_ne p'.other_ne] using hcompleted,
          Function.update_of_ne p'.other_ne _ _⟩
  | deliverToken p' =>
      obtain ⟨token, -, rfl⟩ := step_deliverToken hstep
      refine ⟨?_, rfl⟩
      rcases Role.eq_or_eq_other p' p with rfl | rfl
      · simpa [Completed] using hcompleted
      · simpa [Completed, Function.update_of_ne p'.other_ne] using hcompleted

/-- When nothing is on its way, a peer that works on its target has been
answered and is idle. -/
theorem Inv.idle_of_quiet (h : Inv i s) (hinit : s.sent .alfie ≠ [])
    (hquiet : ∀ p, s.inFlight p = []) {t : Target} (ht : Active i s p t) :
    t.isComplete = true ∧ (s.peer p).entryState = none := by
  have hall : ∀ p, s.delivered p = s.sent p.other := by
    intro p
    have happend := delivered_append_inFlight s p
    rwa [hquiet p, List.append_nil] at happend
  -- the first message opens a range, which is answered
  have hbetty : s.sent .betty ≠ [] := by
    obtain ⟨φ, ψ, htrace, -, -, -⟩ := h.framed .betty
    intro hnil
    have hopens : opens (s.sent .alfie) = [] := by
      have hcovers := h.covers_eq .betty
      rw [hnil, hall] at hcovers
      exact hcovers.symm
    rw [hall] at htrace
    have haddr := h.addressed .alfie
    change Trace (Phase.Step σ) .fresh (s.sent .alfie) φ at htrace
    generalize s.sent .alfie = messages at htrace hopens hinit haddr
    cases htrace with
    | nil => exact hinit rfl
    | @cons _ _ _ x _ hfirst _ =>
        cases hfirst with
        | initial hs _ =>
            have hx := haddr x List.mem_cons_self
            unfold Sent.Addressed at hx
            rw [hs] at hx
            rw [opens_cons, List.append_eq_nil_iff, Option.toList_eq_nil_iff] at hopens
            rw [hopens.1] at hx
            cases hx.2
  have hother : s.sent p.other ≠ [] := by
    cases p with
    | alfie => exact hbetty
    | betty => exact hinit
  have hreceived : 0 < s.received p := by
    rcases Nat.eq_zero_or_pos (s.received p) with hzero | hpos
    · have hdelivered := hall p
      unfold delivered at hdelivered
      rw [hzero, List.take_zero] at hdelivered
      exact absurd hdelivered.symm hother
    · exact hpos
  have hcovered : covers (s.delivered p) = opens (s.sent p) := by
    have hcovers := h.covers_eq p.other
    rw [hall p.other, Role.other_other] at hcovers
    rw [hall p, hcovers]
  have hempty : t.ourUncoveredRanges = ∅ := by
    ext n
    rw [ht.uncovered, hcovered]
    simp
  obtain ⟨φ, ψ, -, hmatch, hflight, hend⟩ := h.framed p
  rw [hquiet p] at hflight
  cases hflight
  refine ⟨by simp [Target.isComplete, hempty, ht.started.mpr hreceived], ?_⟩
  rcases hend with rfl | ⟨-, hnil⟩
  · exact hmatch
  · exact absurd hnil hother

/-- When nothing is on its way, both peers have completed the target. -/
theorem Inv.completed_of_quiet (h : Inv i s) (hinit : s.sent .alfie ≠ [])
    (hquiet : ∀ p, s.inFlight p = []) (p : Role) : s.Completed i p := by
  cases h.stage p with
  | waiting _ _ _ hsent hreceived =>
      cases p with
      | alfie => exact absurd hsent hinit
      | betty =>
          have hnone := hquiet .betty
          unfold inFlight at hnone
          rw [hreceived, List.drop_zero] at hnone
          exact absurd hnone hinit
  | active t ht => exact absurd (h.idle_of_quiet hinit hquiet ht) ht.incomplete
  | done _ _ hcompleted _ _ _ _ => exact hcompleted

/-! ## The accounts -/

/-- **Range accounting.** In every run of two honest reconcilers on one target:
a peer that processes a message knows its target, gives a range the number that
its sender gave it, and only marks ranges as covered that are pending; no call
fails; a range is covered at most once, is pending until then, and is covered
when the target is completed; after that the peer receives nothing; and when
nothing is on its way, both peers have completed the target. -/
theorem range_accounting [WillowDataModel] (hlaw : Storage.NeverFails σ)
    (i : AoiIntersection) (hpath : GreaterButNotPrefixedSpec i.area.path) (store : Role → σ)
    (sessionId : SessionId) (maxEagerPayloadSize : Role → U64) (s : Pair σ)
    (h : Reachable step (fun _ _ => True) (Pair.start i store sessionId maxEagerPayloadSize) s) :
    (∀ p s', step s (.deliver p) = some s' → ∃ x t, (s.inFlight p).head? = some x ∧
      (s.peer p).targets.lookup (i.seenBy p).id = some t ∧
      (OpensRange x.message → x.opened = some t.nextRangeCountTheirs.1) ∧
      ∀ n, x.covers = some n → ∃ t', t.markOurRangeCovered n = .ok t') ∧
    (∀ p, s.failed p = false) ∧
    (∀ p n, (covers (s.delivered p)).count n ≤ 1 ∧
      (n ∈ covers (s.delivered p) → n ∈ opens (s.sent p)) ∧
      (∀ t, (s.peer p).targets.lookup (i.seenBy p).id = some t →
        (n ∈ t.ourUncoveredRanges ↔ n ∈ opens (s.sent p) ∧ (covers (s.delivered p)).count n = 0)) ∧
      (s.Completed i p → n ∈ opens (s.sent p) → (covers (s.delivered p)).count n = 1)) ∧
    (∀ p, s.Completed i p → ∀ s', Reachable step (fun _ _ => True) s s' →
      s'.inFlight p = [] ∧ s'.received p = s.received p) ∧
    (s.sent .alfie ≠ [] → (∀ p, s.inFlight p = []) → ∀ p, s.Completed i p) := by
  obtain ⟨range, hrange⟩ := Area.exists_toRange hpath
  have hinv : Inv i s := inv_of_reachable hlaw hrange h
  have hpre : ∀ p, covers (s.delivered p) <+: opens (s.sent p) := fun p =>
    (List.prefix_append _ _).trans (hinv.covers_isPrefix p)
  have hnodup : ∀ p, (opens (s.sent p)).Nodup := fun p => by
    rw [hinv.opens_eq p]
    exact List.nodup_range
  refine ⟨?_, hinv.running, ?_, ?_, hinv.completed_of_quiet⟩
  · -- only a peer that works on its target processes a message
    intro p s' hstep
    obtain ⟨t, ht⟩ := hinv.active_of_deliver hstep
    obtain ⟨x, rest, t', φ, φ', new, ψ, hd, -, -, -, -, haddr⟩ :=
      hinv.deliver_active hlaw ht hstep
    refine ⟨x, t, by rw [hd.next]; rfl, ht.lookup, ?_, ?_⟩
    · intro hopens
      obtain ⟨n, hn⟩ := opened_of_opensRange haddr hopens
      have hnumber : n = t.nextRangeCountTheirs.1 :=
        (hinv.opened_eq hd.next hn).trans ht.theirRangeCounter.symm
      rw [hn, hnumber]
    · intro n hn
      exact ⟨_, if_pos ((ht.uncovered n).mpr (hinv.covered_mem hd.next hn))⟩
  · -- a prefix of distinct numbers: each is covered at most once
    intro p n
    have hcount : (covers (s.delivered p)).count n ≤ 1 :=
      List.nodup_iff_count_le_one.mp ((hnodup p).sublist (hpre p).sublist) n
    refine ⟨hcount, fun hn => (hpre p).subset hn, ?_, ?_⟩
    · intro t hlookup
      rw [List.count_eq_zero]
      cases hinv.stage p with
      | waiting _ hnone _ _ _ =>
          rw [hnone] at hlookup
          cases hlookup
      | active u hu =>
          rw [hu.lookup] at hlookup
          obtain rfl := Option.some.inj hlookup
          exact hu.uncovered n
      | done _ hnone _ _ _ _ _ =>
          rw [hnone] at hlookup
          cases hlookup
    · intro hcompleted hn
      rw [(hinv.done_of_completed hcompleted).2.2.1] at hn
      have hpos := List.count_pos_iff.mpr hn
      omega
  · -- a completed target stays completed, and the channel stays empty
    intro p hcompleted s' hreach
    have hboth : (Inv i s' ∧ s'.Completed i p) ∧ s'.received p = s.received p := by
      refine hreach.invariant (P := fun s' => (Inv i s' ∧ s'.Completed i p) ∧
        s'.received p = s.received p) ⟨⟨hinv, hcompleted⟩, rfl⟩ ?_
      intro s₁ a s₂ hs₁ _ hstep
      obtain ⟨hcompleted₂, hreceived₂⟩ := hs₁.1.1.step_completed hs₁.1.2 hstep
      exact ⟨⟨hs₁.1.1.step hlaw hrange hstep, hcompleted₂⟩, hreceived₂.trans hs₁.2⟩
    exact ⟨(hboth.1.1.done_of_completed hboth.1.2).2.2.2, hboth.2⟩

end Model

/-! ### One entry -/

section Samples

open IrohWillow.Sample

attribute [local instance] acceptingSignatures timestampHash ReadAccess.Sample.nestedAreas

/-- Alfie and Betty work on everything. -/
def Sample.everything : AoiIntersection :=
  { ourHandle := 0
    theirHandle := 0
    intersection := ⟨.full, 0, 0⟩
    namespaceId := namespaceId }

/-- Alfie has an entry that Betty does not have. -/
def Sample.oneEntry : Role → IdealStore
  | .alfie => { entries := [entryAt [] 1] }
  | .betty => {}

theorem Sample.everything_path : GreaterButNotPrefixedSpec everything.area.path := by
  rintro ⟨y, hy⟩
  exact lt_irrefl y (hy y List.nil_prefix)

/-- The fingerprint, the answer, and the entry with its token. -/
def Sample.transfer : List Action :=
  [.takeInput .alfie, .takeInput .betty, .deliver .betty, .deliver .alfie, .deliverToken .betty,
    .deliver .betty, .deliver .betty, .deliver .betty]

open IrohWillow.Pair.Sample

/-- The entry is sent, and both peers complete the target. -/
theorem range_accounting_one_entry :
    ∃ s, Reachable step (fun _ _ => True) (Pair.start everything oneEntry 0 fun _ => 0) s ∧
      (s.received .alfie, s.received .betty) = (1, 4) ∧ (∀ p, s.failed p = false) ∧
      ∀ p, s.Completed everything p := by
  have hrun : ((run step (Pair.start everything oneEntry 0 fun _ => 0) transfer).map fun s =>
      (decide (s.sent .alfie = []), s.inFlight .alfie, s.inFlight .betty, s.received .alfie,
        s.received .betty)) = some (false, [], [], 1, 4) := by rfl
  obtain ⟨s, hs, heq⟩ := Option.map_eq_some_iff.mp hrun
  simp only [Prod.mk.injEq, decide_eq_false_iff_not] at heq
  obtain ⟨hinit, halfie, hbetty, hreceived⟩ := heq
  have hreach : Reachable step (fun _ _ => True) (Pair.start everything oneEntry 0 fun _ => 0) s :=
    .of_run hs (by decide)
  obtain ⟨-, hrunning, -, -, hcompleted⟩ := range_accounting IdealStore.neverFails everything
    everything_path oneEntry 0 (fun _ => 0) s hreach
  refine ⟨s, hreach, by rw [hreceived.1, hreceived.2], hrunning, hcompleted hinit ?_⟩
  exact Role.forall_of .alfie halfie hbetty

end Samples

end IrohWillow.Pair
