import IrohWillow.Lib.Segments
import IrohWillow.Session.HonestPeer
import IrohWillow.Session.ReconcilerRun

/-!
# Blocks of entries on the reconciliation channel

`Target::announce_and_send_entries` sends an announcement, and after it each
entry with the chunks of its payload; the last message is final. Nothing in the
messages says which target and which entry a chunk belongs to: `EntryState` of
the receiver tracks it. The sender makes any calls, for any targets, one after
the other, and the receiver takes its intersections at any time.

* `openBlock` reads off the messages what the receiver should know, and
  `BlockMatches` says that `EntryState` knows it;
* `announcements_framed`: it does in every state, it is empty exactly between
  two calls, and it accepts the next message.
-/

namespace IrohWillow

namespace Reconciler

open Transition

/-! ## What a stream of messages says -/

/-- The block of entries that is open: its target, and the entry that was sent
last with the chunks of its payload. -/
structure OpenBlock where
  target : TargetId
  current : Option (Entry × List Chunk) := none

/-- The block after one more message. -/
def blockAfter (block : Option OpenBlock) (x : Sent) : Option OpenBlock :=
  match x.message with
  | .sendFingerprint _ => block
  | .announceEntries m => if m.isEmpty then block else some { target := m.handles }
  | .sendEntry m => block.map fun b => { b with current := some (m.entry, []) }
  | .sendPayload bytes =>
      block.map fun b => { b with current := b.current.map fun c => (c.1, c.2 ++ [bytes]) }
  | .terminatePayload isFinal =>
      if isFinal then none else block.map fun b => { b with current := none }

/-- The block that is open after some messages. -/
def openBlock (l : List Sent) : Option OpenBlock := Segments.state blockAfter none l

/-- The state of the receiver is the one of the block. -/
def BlockMatches : Option OpenBlock → Option EntryStateInner → Prop
  | none, state => state = none
  | some ⟨target, none⟩, state => state = some { target := target }
  | some ⟨target, some (e, chunks)⟩, state => ∃ inner : CurrentPayloadInner,
      state = some { target := target, currentPayload := ⟨some inner⟩ } ∧
        inner.payloadDigest = e.payloadDigest ∧ inner.totalLength = e.payloadLength ∧
        inner.writer = if chunks = [] then none else some chunks

theorem BlockMatches.isNone_iff {block : Option OpenBlock} {state : Option EntryStateInner}
    (h : BlockMatches block state) : state = none ↔ block = none := by
  match block with
  | none => exact ⟨fun _ => rfl, fun _ => h⟩
  | some ⟨target, none⟩ =>
      have hstate : state = some { target := target } := h
      simp [hstate]
  | some ⟨target, some (e, chunks)⟩ =>
      obtain ⟨inner, hstate, -⟩ := h
      simp [hstate]

/-- The phase has the block open. -/
def Phase.Describes : Phase → Option OpenBlock → Prop
  | .fresh, block => block = none
  | .idle _, block => block = none
  | .announced _, block => ∃ target, block = some { target := target }
  | .entry _ e chunks, block => ∃ target, block = some { target := target, current := some (e, chunks) }

section Model

variable {σ : Type} [Meadowcap] [Storage σ]

theorem Phase.Step.describes {φ ψ : Phase} {x : Sent} {block : Option OpenBlock}
    (h : Phase.Step σ φ x ψ) (hφ : φ.Describes block) : ψ.Describes (blockAfter block x) := by
  cases h with
  | initial hs _ => simpa [blockAfter, hs, Phase.Describes] using hφ
  | fingerprint hs => simpa [blockAfter, hs, Phase.Describes] using hφ
  | empty hs hempty => simpa [blockAfter, hs, hempty, Phase.Describes] using hφ
  | @announce _ _ m hs hempty => exact ⟨m.handles, by simp [blockAfter, hs, hempty]⟩
  | entry hs =>
      obtain ⟨target, rfl⟩ := hφ
      exact ⟨target, by simp [blockAfter, hs]⟩
  | payload hs =>
      obtain ⟨target, rfl⟩ := hφ
      exact ⟨target, by simp [blockAfter, hs]⟩
  | terminate hs _ =>
      obtain ⟨target, rfl⟩ := hφ
      exact ⟨target, by simp [blockAfter, hs]⟩
  | final hs _ => simp [blockAfter, hs, Phase.Describes]

/-- At every place of a stream some phase describes the open block and goes on
with the next message. -/
theorem describes_of_trace {φ ψ : Phase} {l : List Sent} (h : Trace (Phase.Step σ) φ l ψ)
    (block : Option OpenBlock) (hφ : φ.Describes block) (n : Nat) :
    ∃ χ : Phase, χ.Describes ((l.take n).foldl blockAfter block) ∧
      ∀ x, l[n]? = some x → ∃ χ', Phase.Step σ χ x χ' := by
  induction h generalizing block n with
  | nil => exact ⟨_, by simpa using hφ, by simp⟩
  | @cons p q r a l hstep _ ih =>
      cases n with
      | zero =>
          refine ⟨p, hφ, fun x hx => ?_⟩
          obtain rfl : a = x := by simpa using hx
          exact ⟨q, hstep⟩
      | succ n => simpa using ih _ (hstep.describes hφ) n

/-! ## The calls of the sender -/

/-- A call of the sender: it announces and sends the entries of a range out of
the store, or it sends a fingerprint. -/
inductive Call (σ : Type) where
  | announceAndSendEntries (store : σ) (target : Target) (range : Range3d) (wantResponse : Bool)
      (covers : Option Nat) (isEmpty : Bool)
  | sendFingerprint (target : Target) (range : Range3d) (fingerprint : Fingerprint)
      (covers : Option Nat)

/-- Make the call; between two calls the store may have changed. -/
def Call.perform (sh : Shared σ) : Call σ → Shared σ
  | .announceAndSendEntries store t range wantResponse covers isEmpty =>
      (t.announceAndSendEntries { sh with store := store } range wantResponse covers isEmpty).2
  | .sendFingerprint t range fingerprint covers => (t.sendFingerprint sh range fingerprint covers).2

/-- The messages of each call. -/
def piecesOf (sh : Shared σ) : List (Call σ) → List (List Sent)
  | [] => []
  | call :: rest =>
      (call.perform sh).sent.drop sh.sent.length :: piecesOf (call.perform sh) rest

/-- The messages of all calls. -/
def streamOf (sh : Shared σ) (calls : List (Call σ)) : List Sent := (piecesOf sh calls).flatten

/-! ### One call -/

omit [Meadowcap] [Storage σ] in
/-- Without a final message a block stays open. -/
theorem isSome_foldl_blockAfter {l : List Sent} (h : ∀ x ∈ l, x.message ≠ .terminatePayload true)
    (block : OpenBlock) : (l.foldl blockAfter (some block)).isSome = true := by
  induction l generalizing block with
  | nil => rfl
  | cons x rest ih =>
      obtain ⟨block', hblock⟩ : ∃ block', blockAfter (some block) x = some block' := by
        have hx := h x List.mem_cons_self
        unfold blockAfter
        split
        · exact ⟨_, rfl⟩
        · split
          · exact ⟨_, rfl⟩
          · exact ⟨_, rfl⟩
        · exact ⟨_, rfl⟩
        · exact ⟨_, rfl⟩
        · rename_i isFinal hmessage
          cases isFinal with
          | true => exact absurd hmessage hx
          | false => exact ⟨_, rfl⟩
      rw [List.foldl_cons, hblock]
      exact ih (fun y hy => h y (List.mem_cons_of_mem _ hy)) block'

variable {store : σ} {target : AoiIntersection} {entries : List AuthorisedEntry}
  {body new : List Sent}

theorem EntryBlock.ne_nil (h : EntryBlock store target entries body) (hne : entries ≠ []) :
    body ≠ [] := by
  cases h with
  | nil => exact absurd rfl hne
  | cons _ _ _ => exact List.cons_ne_nil _ _

/-- Only the last message of a block is final. -/
theorem EntryBlock.dropLast_not_final (h : EntryBlock store target entries body) :
    ∀ x ∈ body.dropLast, x.message ≠ .terminatePayload true := by
  induction h with
  | nil => simp
  | @cons a rest chunks messages handle hchunks hrest ih =>
      intro x hx
      rw [List.dropLast_cons_of_ne_nil (by simp),
        List.dropLast_append_of_ne_nil (by simp)] at hx
      rcases List.mem_cons.mp hx with rfl | hx
      · simp
      · rcases List.mem_append.mp hx with hx | hx
        · obtain ⟨chunk, -, rfl⟩ := List.mem_map.mp hx
          simp
        · cases rest with
          | nil =>
              cases hrest
              cases hx
          | cons b rest =>
              rw [List.dropLast_cons_of_ne_nil (hrest.ne_nil (by simp))] at hx
              rcases List.mem_cons.mp hx with rfl | hx
              · simp
              · exact ih x hx

/-- A sequence of phases that ends outside of a block has closed its block. -/
theorem openBlock_of_trace {covered covered' : Bool}
    (h : Trace (Phase.Step σ) (.idle covered) new (.idle covered')) : openBlock new = none := by
  have hdescribes : ∀ {φ ψ : Phase} {l : List Sent}, Trace (Phase.Step σ) φ l ψ →
      ∀ block, φ.Describes block → ψ.Describes (l.foldl blockAfter block) := by
    intro φ ψ l h
    induction h with
    | nil => exact fun _ hφ => hφ
    | cons hstep _ ih => exact fun _ hφ => ih _ (hstep.describes hφ)
  exact hdescribes h none rfl

omit [Meadowcap] [Storage σ] in
/-- One message outside of a block. -/
theorem segment_singleton {x : Sent} (h : blockAfter none x = none) :
    Segments.Segment blockAfter none [x] where
  ne_nil := List.cons_ne_nil _ _
  closed := h
  inside l₁ l₂ heq h₁ h₂ := by
    have hlength := congrArg List.length heq
    have hpos₁ := List.length_pos_iff.mpr h₁
    have hpos₂ := List.length_pos_iff.mpr h₂
    simp only [List.length_singleton, List.length_append] at hlength
    omega

/-- The messages of an announcement keep a block open from the first to the
last of them. -/
theorem Announces.segment (hlaw : Storage.NeverFails σ) {t : Target} {range : Range3d}
    {wantResponse isEmpty : Bool} {cover : Option Nat}
    (h : Announces store t range wantResponse cover isEmpty new) :
    Segments.Segment blockAfter none new := by
  have hclosed : openBlock new = none := openBlock_of_trace (h.trace hlaw true)
  cases h with
  | intro entries body hblock hentries =>
      cases hnil : entries with
      | nil =>
          rw [hnil] at hblock
          cases hblock
          exact segment_singleton rfl
      | cons a rest =>
          rw [hnil] at hclosed
          refine ⟨List.cons_ne_nil _ _, hclosed, fun l₁ l₂ heq h₁ h₂ => ?_⟩
          cases l₁ with
          | nil => exact absurd rfl h₁
          | cons x l₁ =>
              obtain ⟨rfl, hbody⟩ := List.cons.inj heq
              have hopen : ∀ x ∈ l₁, x.message ≠ .terminatePayload true := by
                intro x hx
                refine hblock.dropLast_not_final x ?_
                rw [show body = l₁ ++ l₂ from hbody, List.dropLast_append_of_ne_nil h₂]
                exact List.mem_append_left _ hx
              have hsome := isSome_foldl_blockAfter hopen { target := t.intersection.peerId }
              exact Option.ne_none_iff_isSome.mpr hsome

/-- The messages of a call are one segment, and follow the phases. -/
theorem Call.perform_segment (hlaw : Storage.NeverFails σ) (sh : Shared σ) (call : Call σ) :
    ∃ new, (call.perform sh).sent = sh.sent ++ new ∧ Segments.Segment blockAfter none new ∧
      ∀ covered, ∃ covered', Trace (Phase.Step σ) (.idle covered) new (.idle covered') := by
  cases call with
  | announceAndSendEntries store t range wantResponse covers isEmpty =>
      obtain ⟨new, hemits, hok⟩ := announceAndSendEntries_spec { sh with store := store } t range
        wantResponse covers isEmpty
      obtain ⟨-, hannounces⟩ := hok _ (announceAndSendEntries_ok hlaw _ t range wantResponse covers
        isEmpty)
      exact ⟨new, hemits.sent, hannounces.segment hlaw, fun covered =>
        ⟨_, hannounces.trace hlaw covered⟩⟩
  | sendFingerprint t range fingerprint covers =>
      exact ⟨_, rfl, segment_singleton rfl, fun covered => ⟨_, .cons (.fingerprint rfl) .nil⟩⟩

theorem segment_of_mem_piecesOf (hlaw : Storage.NeverFails σ) (sh : Shared σ)
    (calls : List (Call σ)) : ∀ l ∈ piecesOf sh calls, Segments.Segment blockAfter none l := by
  induction calls generalizing sh with
  | nil => simp [piecesOf]
  | cons call rest ih =>
      obtain ⟨new, hnew, hsegment, -⟩ := call.perform_segment hlaw sh
      intro l hl
      rcases List.mem_cons.mp hl with rfl | hl
      · simpa [hnew] using hsegment
      · exact ih _ l hl

theorem trace_streamOf (hlaw : Storage.NeverFails σ) (sh : Shared σ) (calls : List (Call σ))
    (covered : Bool) :
    ∃ covered', Trace (Phase.Step σ) (.idle covered) (streamOf sh calls) (.idle covered') := by
  induction calls generalizing sh covered with
  | nil => exact ⟨covered, .nil⟩
  | cons call rest ih =>
      obtain ⟨new, hnew, -, htrace⟩ := call.perform_segment hlaw sh
      obtain ⟨covered₁, hfirst⟩ := htrace covered
      obtain ⟨covered₂, hrest⟩ := ih (call.perform sh) covered₁
      refine ⟨covered₂, ?_⟩
      have happend : streamOf sh (call :: rest) = new ++ streamOf (call.perform sh) rest := by
        simp [streamOf, piecesOf, hnew]
      rw [happend]
      exact hfirst.append hrest

/-! ## The receiver -/

/-- The functions of `EntryState` accept the message; the end of a block also
finds its target. -/
def EntryStateAccepts (r : Reconciler σ) : ReconciliationMessage → Prop
  | .sendFingerprint _ => True
  | .announceEntries m => ∃ r', r.entryStateAnnounce m.handles m.isEmpty = .ok r'
  | .sendEntry m => ∀ a, r.shared.staticTokens.authoriseEntryEventually m.entry
      m.staticTokenHandle m.dynamicToken = .ready (some a) → (r.receivedSendEntry m a).1 = .ok ()
  | .sendPayload bytes => (r.receivedSendPayload bytes).1 = .ok ()
  | .terminatePayload isFinal => (r.receivedTerminatePayload isFinal).1 = .ok ()

variable {r r' : Reconciler σ} {φ φ' : Phase} {x : Sent} {block : Option OpenBlock}

omit [Storage σ] in
/-- The target of an open block is known. -/
theorem EntryStateKnown.lookup (hknown : r.EntryStateKnown) {state : EntryStateInner}
    (hstate : r.entryState = some state) : ∃ t, r.targets.lookup state.target = some t :=
  Option.isSome_iff_exists.mp (AList.lookup_isSome.mpr (hknown state hstate))

/-- A message inside of a block is processed, and the receiver knows the block
that is open then. The token of an entry must have arrived. -/
theorem inside_handled (hlaw : Storage.NeverFails σ) (hknown : r.EntryStateKnown)
    (hblock : BlockMatches block r.entryState) (hφ : φ.Describes block) (hopen : block ≠ none)
    (hstep : Phase.Step σ φ x φ')
    (htoken : ∀ m, x.message = .sendEntry m → ∃ a,
      r.shared.staticTokens.authoriseEntryEventually m.entry m.staticTokenHandle m.dynamicToken =
        .ready (some a)) :
    ∃ r', r.receivedMessage x.message = some (.ok (), r') ∧
      BlockMatches (blockAfter block x) r'.entryState := by
  cases hstep with
  -- outside of a block
  | initial _ _ => exact absurd hφ hopen
  | fingerprint _ => exact absurd hφ hopen
  | empty _ _ => exact absurd hφ hopen
  | announce _ _ => exact absurd hφ hopen
  | @entry covered _ m hs =>
      obtain ⟨target, rfl⟩ := hφ
      have hstate : r.entryState = some { target := target } := hblock
      obtain ⟨t, ht⟩ := hknown.lookup hstate
      obtain ⟨a, ha⟩ := htoken m hs
      have hhandled : ∃ r', r.receivedMessage (.sendEntry m) = some (.ok (), r') ∧
          Handled target r r' (.sendEntry m) t t (.entry covered m.entry []) [] :=
        sendEntry_handled hlaw ht hstate ha
      obtain ⟨r', hr', hhandled⟩ := hhandled
      simp only [blockAfter, hs, Option.map_some]
      exact ⟨r', hr', hhandled.entryState⟩
  | @payload covered e chunks _ chunk hs =>
      obtain ⟨target, rfl⟩ := hφ
      have hmatch : (Phase.entry covered e chunks).Matches target r.entryState := hblock
      obtain ⟨inner, hstate, -⟩ := hblock
      obtain ⟨t, ht⟩ := hknown.lookup hstate
      have hhandled : ∃ r', r.receivedMessage (.sendPayload chunk) = some (.ok (), r') ∧
          Handled target r r' (.sendPayload chunk) t t (.entry covered e (chunks ++ [chunk])) [] :=
        sendPayload_handled ht hmatch
      obtain ⟨r', hr', hhandled⟩ := hhandled
      simp only [blockAfter, hs, Option.map_some]
      exact ⟨r', hr', hhandled.entryState⟩
  | @terminate covered e chunks _ hs himport =>
      obtain ⟨target, rfl⟩ := hφ
      have hmatch : (Phase.entry covered e chunks).Matches target r.entryState := hblock
      obtain ⟨inner, hstate, -⟩ := hblock
      obtain ⟨t, ht⟩ := hknown.lookup hstate
      have hhandled : ∃ r', r.receivedMessage (.terminatePayload false) = some (.ok (), r') ∧
          Handled target r r' (.terminatePayload false) t t (.announced covered) [] :=
        terminatePayload_handled ht hmatch himport
      obtain ⟨r', hr', hhandled⟩ := hhandled
      simp only [blockAfter, hs]
      exact ⟨r', hr', hhandled.entryState⟩
  | @final covered e chunks _ hs himport =>
      obtain ⟨target, rfl⟩ := hφ
      have hmatch : (Phase.entry covered e chunks).Matches target r.entryState := hblock
      obtain ⟨inner, hstate, -⟩ := hblock
      obtain ⟨t, ht⟩ := hknown.lookup hstate
      have hhandled : ∃ r', r.receivedMessage (.terminatePayload true) = some (.ok (), r') ∧
          Handled target r r' (.terminatePayload true) t t (.idle covered) [] :=
        terminatePayload_handled ht hmatch himport
      obtain ⟨r', hr', hhandled⟩ := hhandled
      simp only [blockAfter, hs]
      exact ⟨r', hr', hhandled.entryState⟩

/-- The message of a step outside of a block is a control message. -/
theorem Phase.Step.control (hstep : Phase.Step σ φ x φ') (hφ : φ.Describes none) :
    (∃ m, x.message = .sendFingerprint m) ∨ ∃ m, x.message = .announceEntries m := by
  cases hstep with
  | initial hs _ => exact Or.inl ⟨_, hs⟩
  | fingerprint hs => exact Or.inl ⟨_, hs⟩
  | empty hs _ => exact Or.inr ⟨_, hs⟩
  | announce hs _ => exact Or.inr ⟨_, hs⟩
  | entry _ =>
      obtain ⟨_, hfalse⟩ := hφ
      cases hfalse
  | payload _ =>
      obtain ⟨_, hfalse⟩ := hφ
      cases hfalse
  | terminate _ _ =>
      obtain ⟨_, hfalse⟩ := hφ
      cases hfalse
  | final _ _ =>
      obtain ⟨_, hfalse⟩ := hφ
      cases hfalse

/-- The next message of a stream is accepted. -/
theorem entryStateAccepts (hlaw : Storage.NeverFails σ) (hknown : r.EntryStateKnown)
    (hblock : BlockMatches block r.entryState) (hφ : φ.Describes block)
    (hstep : Phase.Step σ φ x φ') : r.EntryStateAccepts x.message := by
  by_cases hopen : block = none
  · subst hopen
    have hnone : r.entryState = none := hblock
    rcases hstep.control hφ with ⟨m, hs⟩ | ⟨m, hs⟩
    · rw [hs]
      trivial
    · simp [hs, EntryStateAccepts, entryStateAnnounce, hnone]
  · have hinside := inside_handled hlaw hknown hblock hφ hopen hstep
    cases hs : x.message with
    | sendFingerprint m => trivial
    | announceEntries m =>
        cases hstep with
        | initial _ _ => exact absurd hφ hopen
        | fingerprint _ => exact absurd hφ hopen
        | empty _ _ => exact absurd hφ hopen
        | announce _ _ => exact absurd hφ hopen
        | entry hs' => cases hs'.symm.trans hs
        | payload hs' => cases hs'.symm.trans hs
        | terminate hs' _ => cases hs'.symm.trans hs
        | final hs' _ => cases hs'.symm.trans hs
    | sendEntry m =>
        intro a ha
        obtain ⟨r', hr', -⟩ := hinside fun m' hm' => by
          obtain rfl := ReconciliationMessage.sendEntry.inj (hs.symm.trans hm')
          exact ⟨a, ha⟩
        simp only [hs, receivedMessage, ha] at hr'
        exact congrArg Prod.fst (Option.some.inj hr')
    | sendPayload bytes =>
        obtain ⟨r', hr', -⟩ := hinside fun m hm => by cases hs.symm.trans hm
        rw [hs] at hr'
        exact congrArg Prod.fst (Option.some.inj hr')
    | terminatePayload isFinal =>
        obtain ⟨r', hr', -⟩ := hinside fun m hm => by cases hs.symm.trans hm
        rw [hs] at hr'
        exact congrArg Prod.fst (Option.some.inj hr')

/-- After a message has been processed the receiver knows the block that is
open then. -/
theorem blockMatches_after (hlaw : Storage.NeverFails σ) (hknown : r.EntryStateKnown)
    (hblock : BlockMatches block r.entryState) (hφ : φ.Describes block)
    (hstep : Phase.Step σ φ x φ') (h : r.receivedMessage x.message = some (.ok (), r')) :
    BlockMatches (blockAfter block x) r'.entryState := by
  by_cases hopen : block = none
  · subst hopen
    rcases hstep.control hφ with ⟨m, hs⟩ | ⟨m, hs⟩
    · rw [hs] at h
      rcases receivedMessage_sendFingerprint h with ⟨e, heq, -⟩ | ⟨t, -, heq⟩
      · cases heq
      · obtain rfl := congrArg Prod.snd heq
        simp only [blockAfter, hs]
        rw [(finishTarget_spec _ _ _).2.2.1]
        exact hblock
    · rw [hs] at h
      rcases receivedMessage_announceEntries h with
        ⟨e, heq, -⟩ | ⟨r₁, hr₁, ⟨e, heq, -⟩ | ⟨t, -, heq⟩⟩
      · cases heq
      · cases heq
      · obtain ⟨-, rfl⟩ := entryStateAnnounce_ok hr₁
        obtain rfl := congrArg Prod.snd heq
        simp only [blockAfter, hs]
        rw [(finishTarget_spec _ _ _).2.2.1]
        cases m.isEmpty with
        | true => rfl
        | false => rfl
  · obtain ⟨r'', hr'', hmatches⟩ := inside_handled hlaw hknown hblock hφ hopen hstep (by
      intro m hs
      rw [hs] at h
      cases ha : r.shared.staticTokens.authoriseEntryEventually m.entry m.staticTokenHandle
          m.dynamicToken with
      | pending => simp [receivedMessage, ha] at h
      | ready authorised =>
          cases authorised with
          | none => simp [receivedMessage, ha] at h
          | some a => exact ⟨a, rfl⟩)
    obtain rfl := congrArg Prod.snd (Option.some.inj (hr''.symm.trans h))
    exact hmatches

end Model

end Reconciler

/-! ## Every run -/

/-- A reconciler that receives a stream of messages, with the number of those
that it has processed. -/
structure StreamRun (σ : Type) [Meadowcap] where
  reader : ReconcilerRun σ
  received : Nat := 0

namespace StreamRun

open Reconciler Transition

/-- What may happen. -/
inductive Action (σ : Type) where
  /-- The reconciler processes the next message of the stream. -/
  | deliver
  /-- Anything else that happens around the reconciler. -/
  | around (action : ReconcilerRun.Action σ)

section Model

variable {σ : Type} [Meadowcap] [WillowDataModel] [Storage σ]

/-- One step; `none` when the action is not possible. -/
def step (session : List AoiIntersection) (stream : List Sent) (s : StreamRun σ) :
    Action σ → Option (StreamRun σ)
  | .deliver =>
      match stream[s.received]? with
      | none => none
      | some x => (ReconcilerRun.step session s.reader (.message x.message)).map fun reader =>
          { reader := reader, received := s.received + 1 }
  | .around (.message _) => none
  | .around action => (ReconcilerRun.step session s.reader action).map fun reader =>
      { s with reader := reader }

/-- The receiver knows the block that the messages have opened. -/
structure Framed (stream : List Sent) (s : StreamRun σ) : Prop where
  received : s.received ≤ stream.length
  known : s.reader.failure = none → s.reader.reconciler.EntryStateKnown
  block : s.reader.failure = none →
    BlockMatches (openBlock (stream.take s.received)) s.reader.reconciler.entryState

variable {session : List AoiIntersection} {stream : List Sent} {s s' : StreamRun σ}

theorem step_around {a : ReconcilerRun.Action σ}
    (h : step session stream s (.around a) = some s') :
    (∀ m, a ≠ .message m) ∧ ∃ reader, ReconcilerRun.step session s.reader a = some reader ∧
      s' = { s with reader := reader } := by
  cases a with
  | message m => cases h
  | _ =>
      simp only [step, Option.map_eq_some_iff] at h
      obtain ⟨reader, hreader, rfl⟩ := h
      exact ⟨by simp, reader, hreader, rfl⟩

/-- What is not a message leaves the entries that are being received alone. -/
theorem around_frame {reader reader' : ReconcilerRun σ} {a : ReconcilerRun.Action σ}
    (hno : ∀ m, a ≠ .message m) (h : ReconcilerRun.step session reader a = some reader')
    (hok : reader'.failure = none) :
    reader.failure = none ∧ reader'.reconciler.entryState = reader.reconciler.entryState ∧
      ∀ id ∈ reader.reconciler.targets, id ∈ reader'.reconciler.targets := by
  rcases ReconcilerRun.step_cases h with ⟨i, -, rfl, rfl⟩ | ⟨-, haround⟩ | ⟨rfl, -, rfl⟩ |
    ⟨rfl, ⟨hrunning, -⟩, ⟨res, r⟩, hres, rfl⟩ | ⟨m, res, rfl, -, -, rfl⟩
  · exact ⟨hok, rfl, fun _ hid => hid⟩
  · refine ⟨haround.failure ▸ hok, haround.entryState, fun id hid => ?_⟩
    rw [haround.targets]
    exact hid
  · exact ⟨hok, rfl, fun _ hid => hid⟩
  · obtain rfl := ReconcilerRun.failureOf_eq_none.mp hok
    obtain ⟨i, t, -, -, htargets, hentry, -⟩ := ReconcilerRun.takeInput_targets hres
    refine ⟨hrunning, hentry, fun id hid => ?_⟩
    show id ∈ r.targets
    rw [htargets]
    exact (AList.mem_insert _).mpr (Or.inr hid)
  · exact absurd rfl (hno m)

theorem Framed.around (h : Framed stream s) {reader : ReconcilerRun σ}
    {a : ReconcilerRun.Action σ} (hno : ∀ m, a ≠ .message m)
    (hstep : ReconcilerRun.step session s.reader a = some reader) :
    Framed stream { s with reader := reader } := by
  refine ⟨h.received, fun hok state hstate => ?_, fun hok => ?_⟩
  · obtain ⟨hrunning, hentry, htargets⟩ := around_frame hno hstep hok
    exact htargets _ (h.known hrunning state (hentry ▸ hstate))
  · obtain ⟨hrunning, hentry, -⟩ := around_frame hno hstep hok
    show BlockMatches (openBlock (stream.take s.received)) reader.reconciler.entryState
    rw [hentry]
    exact h.block hrunning

theorem Framed.deliver (hlaw : Storage.NeverFails σ) {covered : Bool} {ψ : Phase}
    (htrace : Trace (Phase.Step σ) (.idle covered) stream ψ) (h : Framed stream s)
    (hstep : step session stream s .deliver = some s') : Framed stream s' := by
  simp only [step] at hstep
  split at hstep
  · cases hstep
  · rename_i x hx
    obtain ⟨reader, hreader, rfl⟩ := Option.map_eq_some_iff.mp hstep
    obtain ⟨hlt, hget⟩ := List.getElem?_eq_some_iff.mp hx
    rcases ReconcilerRun.step_cases hreader with ⟨i, -, hfalse, -⟩ | ⟨hno, -⟩ | ⟨hfalse, -⟩ |
      ⟨hfalse, -⟩ | ⟨m, ⟨res, r⟩, hm, ⟨hrunning, -⟩, hres, rfl⟩
    · cases hfalse
    · exact absurd rfl (hno _)
    · cases hfalse
    · cases hfalse
    · obtain rfl := ReconcilerRun.Action.message.inj hm
      obtain ⟨φ, hφ, hnext⟩ := describes_of_trace htrace none rfl s.received
      obtain ⟨φ', hφ'⟩ := hnext x hx
      refine ⟨hlt, fun hok => ?_, fun hok => ?_⟩
      · obtain rfl := ReconcilerRun.failureOf_eq_none.mp hok
        exact (Progress.of_receivedMessage hres).known (h.known hrunning)
      · obtain rfl := ReconcilerRun.failureOf_eq_none.mp hok
        show BlockMatches (openBlock (stream.take (s.received + 1))) r.entryState
        rw [List.take_add_one, hx]
        simp only [openBlock, Option.toList_some, Segments.state_concat]
        exact blockMatches_after hlaw (h.known hrunning) (h.block hrunning) hφ hφ' hres

theorem Framed.step (hlaw : Storage.NeverFails σ) {covered : Bool} {ψ : Phase}
    (htrace : Trace (Phase.Step σ) (.idle covered) stream ψ) (h : Framed stream s) {a : Action σ}
    (hstep : step session stream s a = some s') : Framed stream s' := by
  cases a with
  | deliver => exact h.deliver hlaw htrace hstep
  | around action =>
      obtain ⟨hno, reader, hreader, rfl⟩ := step_around hstep
      exact h.around hno hreader

/-- **Framing.** An honest sender makes any calls, and the receiver processes
the messages in order, with anything else happening in between. As long as it
runs, its `EntryState` holds the target of the block and the entry of the chunk
that is sent next, it is empty exactly between the messages of two calls, and
the next message is accepted; the target of a final message is found. -/
theorem announcements_framed (hlaw : Storage.NeverFails σ) (sender : Shared σ)
    (calls : List (Call σ)) (store : σ) (ourRole : Role) (sessionId : SessionId)
    (maxEagerPayloadSize : U64)
    (hrun : Reachable (step session (streamOf sender calls)) (fun _ _ => True)
      ⟨ReconcilerRun.start store ourRole sessionId maxEagerPayloadSize, 0⟩ s)
    (hrunning : s.reader.failure = none) :
    BlockMatches (openBlock ((streamOf sender calls).take s.received))
        s.reader.reconciler.entryState ∧
      (s.reader.reconciler.entryState = none ↔
        ∃ k, s.received = Segments.offset (piecesOf sender calls) k) ∧
      ∀ x, (streamOf sender calls)[s.received]? = some x →
        s.reader.reconciler.EntryStateAccepts x.message := by
  obtain ⟨covered, htrace⟩ := trace_streamOf hlaw sender calls true
  have hstart : Framed (streamOf sender calls)
      ⟨ReconcilerRun.start store ourRole sessionId maxEagerPayloadSize, 0⟩ :=
    ⟨Nat.zero_le _, fun _ state hstate => (by cases hstate), fun _ => rfl⟩
  have hframed : Framed (streamOf sender calls) s :=
    hrun.invariant (P := Framed (streamOf sender calls)) hstart
      fun _ _ _ h _ hstep => h.step hlaw htrace hstep
  have hblock := hframed.block hrunning
  refine ⟨hblock, ?_, fun x hx => ?_⟩
  · rw [hblock.isNone_iff]
    exact Segments.state_take_flatten_iff (segment_of_mem_piecesOf hlaw sender calls)
      hframed.received
  · obtain ⟨φ, hφ, hnext⟩ := describes_of_trace htrace none rfl s.received
    obtain ⟨φ', hφ'⟩ := hnext x hx
    exact entryStateAccepts hlaw (hframed.known hrunning) hblock hφ hφ'

end Model

/-! ### Two entries -/

section Samples

open IrohWillow.Sample ReconcilerRun.Sample

attribute [local instance] acceptingSignatures timestampHash ReadAccess.Sample.nestedAreas

/-- Alfie has two entries and the blob of both payloads. -/
def Sample.sender : Shared IdealStore :=
  { store :=
      { entries := [entryAt [[1]] 1, entryAt [[2]] 1]
        blobs := [(.ofByte 0, [[0, 0, 0, 0, 0, 0, 0, 0]])] }
    ourRole := .alfie
    sessionId := 0
    maxEagerPayloadSize := 0 }

/-- Alfie announces everything. -/
def Sample.calls : List (Call IdealStore) :=
  [.announceAndSendEntries Sample.sender.store { intersection := target 0 0 } .full false none
    false]

/-- Betty has received the first entry and its payload, and is to receive the
end of it. -/
theorem announcements_framed_inside :
    ∃ s, Reachable (step [target 0 0] (streamOf Sample.sender Sample.calls)) (fun _ _ => True)
        ⟨betty, 0⟩ s ∧ s.received = 3 ∧
      BlockMatches (openBlock ((streamOf Sample.sender Sample.calls).take s.received))
        s.reader.reconciler.entryState ∧
      s.reader.reconciler.entryState ≠ none ∧
      s.reader.reconciler.EntryStateAccepts (.terminatePayload false) := by
  have hrun : ((Transition.run (step [target 0 0] (streamOf Sample.sender Sample.calls))
      ⟨betty, 0⟩ [.around (.sendInput (target 0 0)), .around .takeInput,
        .around (.bindTheirs writeCapability), .deliver, .deliver, .deliver]).map fun s =>
      (s.received, s.reader.failure, s.reader.reconciler.entryState.isNone,
        ((streamOf Sample.sender Sample.calls)[s.received]?).map (·.message))) =
      some (3, none, false, some (.terminatePayload false)) := by rfl
  obtain ⟨s, hs, heq⟩ := Option.map_eq_some_iff.mp hrun
  simp only [Prod.mk.injEq] at heq
  obtain ⟨hreceived, hrunning, hsome, hnext⟩ := heq
  have hreach := Reachable.of_run_all hs
  obtain ⟨x, hx, hmessage⟩ := Option.map_eq_some_iff.mp hnext
  obtain ⟨hblock, -, haccepts⟩ := announcements_framed IdealStore.neverFails Sample.sender
    Sample.calls _ _ _ _ hreach hrunning
  refine ⟨s, hreach, hreceived, hblock, ?_, hmessage ▸ haccepts x hx⟩
  intro hnone
  rw [hnone] at hsome
  cases hsome

end Samples

end StreamRun

end IrohWillow
