import IrohWillow.Lib.Transition
import IrohWillow.Session.ReconcilerSends

/-!
# The shape of what a reconciler sends

An honest reconciler sends its messages in a fixed order, which the automaton
`Phase` describes: an announcement that is not empty is followed by its
entries, each with its payload, and only the last of them is final. The ranges
that a list of messages opens and covers (`opens`, `covers`) do not depend on
the entries.

Every answer ends with the message that covers the answered range; the flag of
a phase says whether the last control message did.
-/

namespace IrohWillow.Reconciler

open Transition

/-! ## Opening and covering ranges -/

/-- The number of the range that a message covers. -/
def Sent.covers (s : Sent) : Option Nat :=
  match s.message with
  | .sendFingerprint m => m.covers
  | .announceEntries m => m.covers
  | .sendEntry _ => none
  | .sendPayload _ => none
  | .terminatePayload _ => none

/-- The numbers of the ranges that messages open, in order. -/
def opens (l : List Sent) : List Nat := l.filterMap (·.opened)

/-- The numbers of the ranges that messages cover, in order. -/
def covers (l : List Sent) : List Nat := l.filterMap (·.covers)

@[simp] theorem opens_nil : opens [] = [] := rfl

@[simp] theorem covers_nil : covers [] = [] := rfl

theorem opens_cons (s : Sent) (l : List Sent) : opens (s :: l) = s.opened.toList ++ opens l := by
  cases h : s.opened <;> simp [opens, h]

theorem covers_cons (s : Sent) (l : List Sent) : covers (s :: l) = s.covers.toList ++ covers l := by
  cases h : s.covers <;> simp [covers, h]

@[simp] theorem opens_append (l l' : List Sent) : opens (l ++ l') = opens l ++ opens l' :=
  List.filterMap_append

@[simp] theorem covers_append (l l' : List Sent) : covers (l ++ l') = covers l ++ covers l' :=
  List.filterMap_append

/-! ## Phases -/

section Model

variable (σ : Type) [Meadowcap] [Storage σ]

/-- The payload of the entry can be imported from the chunks, if there are
any. -/
def Importable (entry : Entry) (chunks : List Chunk) : Prop :=
  chunks = [] ∨ ∀ store : σ,
    (Storage.importChunks store entry.payloadDigest entry.payloadLength chunks).1 = .ok ()

/-- Where a sequence of messages has got to. -/
inductive Phase where
  /-- Nothing was sent by the peer that starts. -/
  | fresh
  /-- Outside of a block of entries. -/
  | idle (covered : Bool)
  /-- Inside a block, before an entry. -/
  | announced (covered : Bool)
  /-- After an entry and some chunks of its payload. -/
  | entry (covered : Bool) (entry : Entry) (chunks : List Chunk)

/-- One message. -/
inductive Phase.Step : Phase → Sent → Phase → Prop
  | initial {s : Sent} {m : ReconciliationSendFingerprint} (hs : s.message = .sendFingerprint m)
      (hcovers : m.covers = none) : Phase.Step .fresh s (.idle true)
  | fingerprint {covered : Bool} {s : Sent} {m : ReconciliationSendFingerprint}
      (hs : s.message = .sendFingerprint m) :
      Phase.Step (.idle covered) s (.idle m.covers.isSome)
  | empty {covered : Bool} {s : Sent} {m : ReconciliationAnnounceEntries}
      (hs : s.message = .announceEntries m) (hempty : m.isEmpty = true) :
      Phase.Step (.idle covered) s (.idle m.covers.isSome)
  | announce {covered : Bool} {s : Sent} {m : ReconciliationAnnounceEntries}
      (hs : s.message = .announceEntries m) (hempty : m.isEmpty = false) :
      Phase.Step (.idle covered) s (.announced m.covers.isSome)
  | entry {covered : Bool} {s : Sent} {m : ReconciliationSendEntry}
      (hs : s.message = .sendEntry m) :
      Phase.Step (.announced covered) s (.entry covered m.entry [])
  | payload {covered : Bool} {entry : Entry} {chunks : List Chunk} {s : Sent} {chunk : Chunk}
      (hs : s.message = .sendPayload chunk) :
      Phase.Step (.entry covered entry chunks) s (.entry covered entry (chunks ++ [chunk]))
  | terminate {covered : Bool} {entry : Entry} {chunks : List Chunk} {s : Sent}
      (hs : s.message = .terminatePayload false) (himport : Importable σ entry chunks) :
      Phase.Step (.entry covered entry chunks) s (.announced covered)
  | final {covered : Bool} {entry : Entry} {chunks : List Chunk} {s : Sent}
      (hs : s.message = .terminatePayload true) (himport : Importable σ entry chunks) :
      Phase.Step (.entry covered entry chunks) s (.idle covered)

end Model

/-- Whether the last control message covered a range. -/
def Phase.covered : Phase → Bool
  | .fresh => false
  | .idle covered => covered
  | .announced covered => covered
  | .entry covered _ _ => covered

section Traces

variable {σ : Type} [Meadowcap] [Storage σ] {φ ψ : Phase} {l : List Sent}

theorem Phase.Step.ne_fresh {s : Sent} (h : Phase.Step σ φ s ψ) : ψ ≠ .fresh := by
  cases h <;> simp

/-- Without a covering message the flag does not rise. -/
theorem Phase.Step.covered_of_covers {s : Sent} (h : Phase.Step σ φ s ψ) (hφ : φ ≠ .fresh)
    (hcovers : s.covers = none) (hflag : φ.covered = false) : ψ.covered = false := by
  cases h with
  | initial => exact absurd rfl hφ
  | fingerprint hs => simpa [Sent.covers, hs, Phase.covered] using hcovers
  | empty hs _ => simpa [Sent.covers, hs, Phase.covered] using hcovers
  | announce hs _ => simpa [Sent.covers, hs, Phase.covered] using hcovers
  | entry _ => exact hflag
  | payload _ => exact hflag
  | terminate _ _ => exact hflag
  | final _ _ => exact hflag

theorem covered_of_trace (h : Trace (Phase.Step σ) φ l ψ) (hφ : φ ≠ .fresh)
    (hcovers : covers l = []) (hflag : φ.covered = false) : ψ.covered = false := by
  induction h with
  | nil => exact hflag
  | cons hstep _ ih =>
      rw [covers_cons, List.append_eq_nil_iff, Option.toList_eq_nil_iff] at hcovers
      exact ih hstep.ne_fresh hcovers.2 (hstep.covered_of_covers hφ hcovers.1 hflag)

/-- Outside of a block, a sequence of messages that ends with an answer covers
a range, unless it is empty. -/
theorem eq_nil_of_trace {covered : Bool} (h : Trace (Phase.Step σ) (.idle covered) l (.idle true))
    (hcovers : covers l = []) : l = [] ∧ covered = true := by
  cases h with
  | nil => exact ⟨rfl, rfl⟩
  | cons hstep hrest =>
      rw [covers_cons, List.append_eq_nil_iff, Option.toList_eq_nil_iff] at hcovers
      -- the first message is a control message, which lowers the flag
      have hflag := covered_of_trace hrest hstep.ne_fresh hcovers.2 (by
        cases hstep with
        | fingerprint hs => simpa [Sent.covers, hs, Phase.covered] using hcovers.1
        | empty hs _ => simpa [Sent.covers, hs, Phase.covered] using hcovers.1
        | announce hs _ => simpa [Sent.covers, hs, Phase.covered] using hcovers.1)
      cases hflag

/-! ## Blocks of entries -/

theorem trace_chunks (covered : Bool) (e : Entry) (target : AoiIntersection)
    (before chunks : List Chunk) :
    Trace (Phase.Step σ) (.entry covered e before)
      (chunks.map fun chunk => ⟨.sendPayload chunk, target, none⟩)
      (.entry covered e (before ++ chunks)) := by
  induction chunks generalizing before with
  | nil => simpa using Trace.nil
  | cons chunk rest ih =>
      refine .cons (.payload rfl) ?_
      simpa using ih (before ++ [chunk])

variable {store : σ} {target : AoiIntersection} {entries : List AuthorisedEntry}
  {body : List Sent}

/-- A block neither opens nor covers a range. -/
theorem EntryBlock.silent (h : EntryBlock store target entries body) :
    ∀ s ∈ body, s.opened = none ∧ s.covers = none := by
  induction h with
  | nil => simp
  | cons handle hchunks _ ih =>
      intro s hs
      simp only [List.mem_cons, List.mem_append, List.mem_map] at hs
      rcases hs with rfl | ⟨chunk, -, rfl⟩ | rfl | hs
      · exact ⟨rfl, rfl⟩
      · exact ⟨rfl, rfl⟩
      · exact ⟨rfl, rfl⟩
      · exact ih s hs

theorem EntryBlock.opens_eq (h : EntryBlock store target entries body) : opens body = [] :=
  List.filterMap_eq_nil_iff.mpr fun s hs => (h.silent s hs).1

theorem EntryBlock.covers_eq (h : EntryBlock store target entries body) : covers body = [] :=
  List.filterMap_eq_nil_iff.mpr fun s hs => (h.silent s hs).2

/-- A block goes from its announcement to the final message. -/
theorem EntryBlock.trace (h : EntryBlock store target entries body)
    (himport : ∀ a ∈ entries, ∀ chunks,
      Storage.payloadChunks store a.entry.payloadDigest = .ok (some chunks) →
        Importable σ a.entry chunks) (covered : Bool) (hne : entries ≠ []) :
    Trace (Phase.Step σ) (.announced covered) body (.idle covered) := by
  induction h with
  | nil => exact absurd rfl hne
  | @cons a rest chunks messages handle hchunks hrest ih =>
      have hok : Importable σ a.entry chunks := by
        rcases hchunks with rfl | hchunks
        · exact Or.inl rfl
        · exact himport a List.mem_cons_self chunks hchunks
      refine .cons (.entry rfl) ((trace_chunks covered a.entry target [] chunks).append ?_)
      cases rest with
      | nil =>
          cases hrest
          exact .cons (.final rfl hok) .nil
      | cons b rest =>
          exact .cons (.terminate rfl hok)
            (ih (fun c hc => himport c (List.mem_cons_of_mem _ hc)) (by simp))

end Traces

/-! ## Answers -/

/-- The target after the ranges that the messages open are pending. -/
def Target.withOpened (t : Target) (new : List Sent) : Target :=
  { t with
    ourUncoveredRanges := t.ourUncoveredRanges ∪ (opens new).toFinset
    ourRangeCounter := t.ourRangeCounter + (opens new).length }

/-- The messages open the next ranges of the target. -/
structure OpensNext (t t' : Target) (new : List Sent) : Prop where
  target : t' = t.withOpened new
  opens_eq : opens new = List.range' t.ourRangeCounter (opens new).length

theorem OpensNext.refl (t : Target) : OpensNext t t [] :=
  ⟨by simp [Target.withOpened], rfl⟩

theorem OpensNext.trans {t₁ t₂ t₃ : Target} {l l' : List Sent} (h : OpensNext t₁ t₂ l)
    (h' : OpensNext t₂ t₃ l') : OpensNext t₁ t₃ (l ++ l') := by
  have hopens := h'.opens_eq
  rw [h.target] at hopens
  refine ⟨?_, ?_⟩
  · rw [h'.target, h.target]
    simp [Target.withOpened, Finset.union_assoc, Nat.add_assoc]
  · rw [opens_append, List.length_append, ← List.range'_append_1, ← h.opens_eq]
    exact congrArg _ hopens

theorem OpensNext.pending {t : Target} {new : List Sent} (h : opens new = [t.ourRangeCounter]) :
    OpensNext t t.markOurNextRangePending.2 new := by
  refine ⟨?_, by simp [h]⟩
  rw [Target.withOpened, h]
  simp [Target.markOurNextRangePending]

section Answers

variable (σ : Type) [Meadowcap] [Storage σ]

/-- The messages of one answer: they open the next ranges, the last control
message covers the answered range, and they have the right shape. -/
structure Replies (t t' : Target) (rangeCount : Nat) (new : List Sent) : Prop
    extends OpensNext t t' new where
  covers_eq : covers new = [rangeCount]
  trace : ∀ covered, Trace (Phase.Step σ) (.idle covered) new (.idle true)

variable {σ} {store : σ} {t t' : Target} {range : Range3d} {wantResponse isEmpty : Bool}
  {cover : Option Nat} {rangeCount : Nat} {new : List Sent}

theorem Announces.opens_eq (h : Announces store t range wantResponse cover isEmpty new) :
    opens new = if wantResponse then [t.ourRangeCounter] else [] := by
  cases h with
  | intro entries body hblock hentries =>
      rw [opens_cons, hblock.opens_eq]
      cases wantResponse <;> rfl

theorem Announces.covers_eq (h : Announces store t range wantResponse cover isEmpty new) :
    covers new = cover.toList := by
  cases h with
  | intro entries body hblock hentries =>
      rw [covers_cons, hblock.covers_eq, List.append_nil]
      rfl

theorem Announces.trace (hlaw : Storage.NeverFails σ)
    (h : Announces store t range wantResponse cover isEmpty new) (covered : Bool) :
    Trace (Phase.Step σ) (.idle covered) new (.idle cover.isSome) := by
  cases h with
  | intro entries body hblock hentries =>
      cases hnil : entries with
      | nil =>
          rw [hnil] at hblock
          cases hblock
          exact .cons (.empty rfl rfl) .nil
      | cons a rest =>
          refine .cons (.announce rfl rfl) (hnil ▸ hblock.trace ?_ cover.isSome (by simp [hnil]))
          intro b hb chunks hchunks
          -- the entries were read from the store, so `isEmpty` was not set
          cases isEmpty with
          | true =>
              have hmap := Except.ok.inj hentries
              rw [hnil] at hmap
              cases hmap
          | false =>
              exact Or.inr fun store' => hlaw.importPayload store store' _ _ _ b chunks hentries
                (List.mem_map_of_mem hb) hchunks

theorem Announces.replies (hlaw : Storage.NeverFails σ)
    (h : Announces store t range wantResponse (some rangeCount) isEmpty new) :
    Replies σ t (t.announced wantResponse) rangeCount new := by
  refine ⟨?_, h.covers_eq, h.trace hlaw⟩
  have hopens := h.opens_eq
  cases wantResponse with
  | true => exact .pending hopens
  | false => exact ⟨by simp [Target.withOpened, hopens, Target.announced], by simp [hopens]⟩

theorem AnswersParts.opensNext {parts : List (Range3d × SplitAction)}
    (h : AnswersParts store rangeCount parts t t' new) : OpensNext t t' new := by
  induction h with
  | nil => exact .refl _
  | @fingerprint range fingerprint rest t t' messages _ ih =>
      have hfirst : OpensNext t t.markOurNextRangePending.2
          [t.fingerprintMessage range fingerprint (if rest.isEmpty then some rangeCount else none)] :=
        .pending rfl
      exact hfirst.trans ih
  | entries hpiece _ ih => exact (OpensNext.pending hpiece.opens_eq).trans ih

/-- Only the last part covers the range. -/
theorem AnswersParts.covers_eq {parts : List (Range3d × SplitAction)}
    (h : AnswersParts store rangeCount parts t t' new) (hne : parts ≠ []) :
    covers new = [rangeCount] := by
  induction h with
  | nil => exact absurd rfl hne
  | @fingerprint range fingerprint rest t t' messages hrest ih =>
      rw [covers_cons]
      cases rest with
      | nil =>
          cases hrest
          rfl
      | cons part rest => exact ih (by simp)
  | @entries range count rest t t' piece messages hpiece hrest ih =>
      rw [covers_append, hpiece.covers_eq]
      cases rest with
      | nil =>
          cases hrest
          rfl
      | cons part rest => exact ih (by simp)

theorem AnswersParts.trace (hlaw : Storage.NeverFails σ)
    {parts : List (Range3d × SplitAction)}
    (h : AnswersParts store rangeCount parts t t' new) (hne : parts ≠ []) (covered : Bool) :
    Trace (Phase.Step σ) (.idle covered) new (.idle true) := by
  induction h generalizing covered with
  | nil => exact absurd rfl hne
  | @fingerprint range fingerprint rest t t' messages hrest ih =>
      refine .cons (.fingerprint rfl) ?_
      cases rest with
      | nil =>
          cases hrest
          exact .nil
      | cons part rest => exact ih (by simp) _
  | @entries range count rest t t' piece messages hpiece hrest ih =>
      refine (hpiece.trace hlaw covered).append ?_
      cases rest with
      | nil =>
          cases hrest
          exact .nil
      | cons part rest => exact ih (by simp) _

/-- Each of the three answers is an answer. -/
theorem Answers.replies (hlaw : Storage.NeverFails σ) {message : ReconciliationSendFingerprint}
    {ours : Fingerprint} (h : Answers store t message rangeCount ours t' new) :
    Replies σ t t' rangeCount new := by
  cases h with
  | matching _ hnew => exact hnew.replies hlaw
  | empty _ _ hnew => exact hnew.replies hlaw
  | split _ hparts hnew =>
      obtain ⟨parts, hne, hsplit⟩ := hlaw.split store t.intersection.namespaceId message.range
      obtain rfl : _ = parts := List.map_injective_iff.mpr (fun _ _ h => Except.ok.inj h)
        (hparts.symm.trans hsplit)
      exact ⟨hnew.opensNext, hnew.covers_eq hne, hnew.trace hlaw hne⟩

end Answers

end IrohWillow.Reconciler
