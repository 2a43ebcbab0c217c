import IrohWillow.Session.PaiFinder

/-!
# What a finder knows

Against an honest peer, everything a `PaiFinder` has bound is determined by the
fragments of both peers and by how many of ours were replied to. In these terms
each input has a short description: which pairs of fragments it acts on, and what
it puts out.
-/

namespace IrohWillow

theorem getElem?_of_isPrefix {α : Type} {l l' : List α} (h : l <+: l') {i : Nat} {a : α}
    (ha : l[i]? = some a) : l'[i]? = some a := by
  obtain ⟨rest, rfl⟩ := h
  rwa [List.getElem?_append_left (List.getElem?_eq_some_iff.mp ha).1]

/-! ## When two fragments meet -/

/-- The fragments are equal and not both secondary. -/
def LocalFragment.Meets (x y : LocalFragment) : Prop :=
  x.fragment = y.fragment ∧ ¬ (x.kind = .secondary ∧ y.kind = .secondary)

instance (x y : LocalFragment) : Decidable (x.Meets y) := inferInstanceAs (Decidable (_ ∧ _))

theorem LocalFragment.Meets.symm {x y : LocalFragment} (h : x.Meets y) : y.Meets x :=
  ⟨h.1.symm, fun hk => h.2 hk.symm⟩

theorem FragmentKind.isSecondary_iff {k : FragmentKind} : k.isSecondary = true ↔ k = .secondary := by
  cases k <;> simp [isSecondary]

section

variable [PaiScheme]

/-- The state of our fragment under the handle `h` after the first `replies`
handles were replied to. -/
def LocalFragment.ownState (scalar peerScalar : PsiScalar) (replies h : Nat) (x : LocalFragment) :
    GroupState :=
  let multiplied := PaiScheme.scalarMult (PaiScheme.hashIntoGroup x.fragment) scalar
  if h < replies then
    .newComplete (PaiScheme.scalarMult multiplied peerScalar) x.kind.isSecondary
  else .newPending multiplied x.kind.isSecondary

/-- The state of a fragment of the peer. -/
def LocalFragment.theirState (scalar peerScalar : PsiScalar) (y : LocalFragment) : GroupState :=
  let unmixed := PaiScheme.scalarMult (PaiScheme.hashIntoGroup y.fragment) peerScalar
  .newComplete (PaiScheme.scalarMult unmixed scalar) y.kind.isSecondary

theorem GroupState.completesWith_iff {g g' : GroupState} :
    g.completesWith g' = true ↔ g.isComplete = true ∧ g'.isComplete = true ∧
      ¬ (g.isSecondary = true ∧ g'.isSecondary = true) ∧ g.group = g'.group := by
  unfold completesWith
  cases g.isComplete <;> cases g'.isComplete <;> cases g.isSecondary <;> cases g'.isSecondary <;>
    simp [PaiScheme.isGroupEqual]

theorem GroupState.completesWith_comm (g g' : GroupState) :
    g.completesWith g' = g'.completesWith g := by
  rw [Bool.eq_iff_iff, completesWith_iff, completesWith_iff]
  tauto

/-- Whoever multiplies first, equal fragments have equal group members. -/
theorem PaiScheme.Lawful.group_eq_iff (hlaw : PaiScheme.Lawful) {x y : Fragment}
    {a b : PsiScalar} :
    PaiScheme.scalarMult (PaiScheme.scalarMult (PaiScheme.hashIntoGroup x) a) b =
      PaiScheme.scalarMult (PaiScheme.scalarMult (PaiScheme.hashIntoGroup y) b) a ↔ x = y := by
  constructor
  · intro h
    rw [hlaw.scalarMult_comm] at h
    exact hlaw.hash_injective (hlaw.scalarMult_injective _ _ _ (hlaw.scalarMult_injective _ _ _ h))
  · rintro rfl
    exact hlaw.scalarMult_comm _ _ _

theorem LocalFragment.isComplete_ownState {s s' : PsiScalar} {replies h : Nat}
    {x : LocalFragment} : (x.ownState s s' replies h).isComplete = true ↔ h < replies := by
  unfold ownState
  split
  · rename_i hh
    simpa [GroupState.isComplete, GroupState.newComplete] using hh
  · rename_i hh
    simpa [GroupState.isComplete, GroupState.newPending] using hh

theorem LocalFragment.group_ownState {s s' : PsiScalar} {replies h : Nat} {x : LocalFragment}
    (hh : h < replies) : (x.ownState s s' replies h).group =
      PaiScheme.scalarMult (PaiScheme.scalarMult (PaiScheme.hashIntoGroup x.fragment) s) s' := by
  simp [ownState, hh, GroupState.newComplete]

theorem LocalFragment.isSecondary_ownState {s s' : PsiScalar} {replies h : Nat}
    {x : LocalFragment} : (x.ownState s s' replies h).isSecondary = x.kind.isSecondary := by
  unfold ownState
  split <;> rfl

/-- Our fragment completes with one of the peer when it was replied to and the
two meet. -/
theorem LocalFragment.completesWith_iff (hlaw : PaiScheme.Lawful) {s s' : PsiScalar}
    {replies h : Nat} {x y : LocalFragment} :
    (x.ownState s s' replies h).completesWith (y.theirState s s') = true ↔
      h < replies ∧ x.Meets y := by
  rw [GroupState.completesWith_iff, isComplete_ownState, isSecondary_ownState]
  have hcomplete : (y.theirState s s').isComplete = true := by
    simp [theirState, GroupState.isComplete, GroupState.newComplete]
  have hsecondary : (y.theirState s s').isSecondary = y.kind.isSecondary := rfl
  rw [hsecondary, FragmentKind.isSecondary_iff, FragmentKind.isSecondary_iff]
  constructor
  · rintro ⟨hh, -, hkind, hgroup⟩
    rw [group_ownState hh] at hgroup
    exact ⟨hh, hlaw.group_eq_iff.mp hgroup, hkind⟩
  · rintro ⟨hh, hfragment, hkind⟩
    refine ⟨hh, hcomplete, hkind, ?_⟩
    rw [group_ownState hh]
    exact hlaw.group_eq_iff.mpr hfragment

end

namespace PaiFinder

variable [PaiScheme]

/-- What a finder has bound: its fragments, of which the first `replies` were
replied to by a peer with the scalar `peerScalar`, and the fragments `theirs` of
the peer. -/
structure Knows (f : PaiFinder) (peerScalar : PsiScalar) (theirs : List LocalFragment)
    (replies : Nat) : Prop where
  own : f.ourIntersectionHandles.Mirrors
    (f.fragments.mapIdx fun h x => x.ownState f.scalar peerScalar replies h)
  peer : f.theirIntersectionHandles.Mirrors (theirs.map (·.theirState f.scalar peerScalar))
  info : ∀ h, f.fragmentsInfo h = f.fragments[h]?.map LocalFragment.info
  replies_le : replies ≤ f.fragments.length

/-- Our fragment under `o` was replied to and meets the fragment of the peer
under `t`. -/
def Matches (own theirs : List LocalFragment) (replies o t : Nat) : Prop :=
  o < replies ∧ ∃ x y, own[o]? = some x ∧ theirs[t]? = some y ∧ x.Meets y

/-- What `check_for_intersection` puts out about a match. -/
def reaction (own : List LocalFragment) (handle : Nat) (m : Nat × Nat) : Option Output :=
  match own[m.1]? with
  | none => none
  | some x =>
      match x.info.onIntersection with
      | .bindReadCap => some (.newIntersection (x.info.toPaiIntersection m.1))
      | .requestSubspaceCap => some (.requestSubspaceCapability handle)
      | .replyReadCap => none
      | .doNothing => none

/-- The subspace capability is requested when the fragment is matched. -/
def requests (own : List LocalFragment) (o : Nat) : Bool :=
  match own[o]? with
  | none => false
  | some x => decide (x.info.onIntersection = .requestSubspaceCap)

/-- The finder after it has acted on all matches of a list. -/
def actOn (f : PaiFinder) (handle : Nat) (ms : List (Nat × Nat)) : PaiFinder :=
  { f with
    acted := f.acted ++ ms
    outputs := f.outputs ++ ms.filterMap (reaction f.fragments handle)
    requestedSubspaceCapHandles := f.requestedSubspaceCapHandles ∪
      ((ms.map Prod.fst).filter (requests f.fragments)).toFinset }

variable {f : PaiFinder} {peerScalar : PsiScalar} {theirs : List LocalFragment} {replies : Nat}

@[simp] theorem actOn_nil (f : PaiFinder) (handle : Nat) : f.actOn handle [] = f := by
  simp [actOn]

theorem actOn_onMatch {handle : Nat} {m : Nat × Nat} {ms : List (Nat × Nat)} {x : LocalFragment}
    (hx : f.fragments[m.1]? = some x) :
    (f.onMatch handle m x.info).actOn handle ms = f.actOn handle (m :: ms) := by
  have hreq : requests f.fragments m.1 = decide (x.info.onIntersection = .requestSubspaceCap) := by
    simp [requests, hx]
  unfold onMatch
  cases hon : x.info.onIntersection with
  | doNothing => simp [actOn, reaction, hx, hon, hreq]
  | bindReadCap => simp [actOn, reaction, hx, hon, hreq, out]
  | requestSubspaceCap =>
      simp [actOn, reaction, hx, hon, hreq, out, Finset.insert_union, Finset.union_insert]
  | replyReadCap => simp [actOn, reaction, hx, hon, hreq]

/-- The pairs of handles in the loop of `check_for_intersection` that match. -/
def matched (handle : Nat) (scope : Scope) (intersection : GroupState)
    (l : List (Nat × GroupState)) : List (Nat × Nat) :=
  (l.filter fun x => x.2.completesWith intersection).map fun x => handlePair scope handle x.1

/-- The loop acts on every pair that matches. -/
theorem checkAgainst_eq {handle : Nat} {scope : Scope} {intersection : GroupState}
    {l : List (Nat × GroupState)}
    (hinfo : ∀ h, f.fragmentsInfo h = f.fragments[h]?.map LocalFragment.info)
    (hbound : ∀ m ∈ matched handle scope intersection l, m.1 < f.fragments.length) :
    checkAgainst handle scope intersection l f =
      (.ok (), f.actOn handle (matched handle scope intersection l)) := by
  induction l generalizing f with
  | nil => simp [checkAgainst, matched]
  | cons x rest ih =>
      obtain ⟨other, state⟩ := x
      by_cases hc : state.completesWith intersection = true
      · set m := handlePair scope handle other with hm
        have hcons : matched handle scope intersection ((other, state) :: rest) =
            m :: matched handle scope intersection rest := by
          simp [matched, hc, hm]
        rw [hcons] at hbound ⊢
        have hlt : m.1 < f.fragments.length := hbound m (by simp)
        have hx := List.getElem?_eq_getElem hlt
        have hget : f.fragmentsInfo m.1 = some (f.fragments[m.1]).info := by rw [hinfo, hx]; rfl
        rw [checkAgainst]
        simp only [hc, Bool.not_true, Bool.false_eq_true, if_false, ← hm, hget]
        have hfrag : (f.onMatch handle m (f.fragments[m.1]).info).fragments = f.fragments := by
          unfold onMatch
          split <;> rfl
        have hinfos : (f.onMatch handle m (f.fragments[m.1]).info).fragmentsInfo =
            f.fragmentsInfo := by
          unfold onMatch
          split <;> rfl
        rw [ih (by rw [hfrag, hinfos]; exact hinfo)
          (fun m' hm' => by rw [hfrag]; exact hbound m' (by simp [hm'])), actOn_onMatch hx]
      · have hcons : matched handle scope intersection ((other, state) :: rest) =
            matched handle scope intersection rest := by
          simp [matched, hc]
        rw [hcons] at hbound ⊢
        rw [checkAgainst]
        simp only [hc, Bool.not_false, if_true]
        exact ih hinfo hbound

/-! ## Submitting fragments -/

/-- What a bind carries. -/
def bindMessage (scalar : PsiScalar) (x : LocalFragment) : IntersectionMessage :=
  .bindFragment (PaiScheme.toBytes
    (PaiScheme.scalarMult (PaiScheme.hashIntoGroup x.fragment) scalar)) x.kind.isSecondary

/-- All fragments of an authorisation, in the order in which they are submitted. -/
def fragmentsOf (authorisation : ReadAuthorisation) : List LocalFragment :=
  match (PaiScheme.getFragmentKit authorisation.readCap).intoFragmentSet with
  | .complete pairs => (markLast pairs).map fun x => ⟨authorisation, .pair x.1, .primary, x.2⟩
  | .selective primary secondary =>
      ((markLast primary).map fun x => ⟨authorisation, .triple x.1, .primary, x.2⟩) ++
        (markLast secondary).map fun x => ⟨authorisation, .pair x.1, .secondary, x.2⟩

/-- The finder with more fragments; only bindings and outputs differ. -/
structure Submitted (f f' : PaiFinder) (new : List LocalFragment) : Prop where
  knows : ∀ {peerScalar theirs replies}, f.Knows peerScalar theirs replies →
    f'.Knows peerScalar theirs replies
  scalar : f'.scalar = f.scalar
  fragments : f'.fragments = f.fragments ++ new
  outputs : f'.outputs = f.outputs ++ new.map fun x => .sendMessage (bindMessage f.scalar x)
  acted : f'.acted = f.acted
  requested : f'.requestedSubspaceCapHandles = f.requestedSubspaceCapHandles
  pending : f'.pending = f.pending

theorem Submitted.refl (f : PaiFinder) : Submitted f f [] :=
  ⟨id, rfl, by simp, by simp, rfl, rfl, rfl⟩

theorem Submitted.trans {f f' f'' : PaiFinder} {new new' : List LocalFragment}
    (h : Submitted f f' new) (h' : Submitted f' f'' new') : Submitted f f'' (new ++ new') where
  knows hk := h'.knows (h.knows hk)
  scalar := h'.scalar.trans h.scalar
  fragments := by rw [h'.fragments, h.fragments, List.append_assoc]
  outputs := by rw [h'.outputs, h.outputs, h.scalar, List.map_append, List.append_assoc]
  acted := h'.acted.trans h.acted
  requested := h'.requested.trans h.requested
  pending := h'.pending.trans h.pending

theorem ownState_pending {s s' : PsiScalar} {n h : Nat} {x : LocalFragment} (hh : n ≤ h) :
    x.ownState s s' n h = .newPending
      (PaiScheme.scalarMult (PaiScheme.hashIntoGroup x.fragment) s) x.kind.isSecondary := by
  simp [LocalFragment.ownState, Nat.not_lt.mpr hh]

theorem submitted_submitFragment (f : PaiFinder) (x : LocalFragment) :
    Submitted f (f.submitFragment x.authorisation x.fragment x.kind x.isMostSpecific) [x] where
  knows := by
    rintro peerScalar theirs replies h
    have hnext : f.ourIntersectionHandles.nextHandle = f.fragments.length := by
      simpa using h.own.nextHandle
    refine ⟨?_, h.peer, fun k => ?_, h.replies_le.trans (by simp [submitFragment, out])⟩
    · have hbind := @ResourceMap.Mirrors.bind _ _ (GroupState.newPending
        (PaiScheme.scalarMult (PaiScheme.hashIntoGroup x.fragment) f.scalar) x.kind.isSecondary)
        _ h.own
      simpa [submitFragment, out, List.mapIdx_append, ownState_pending h.replies_le] using hbind
    · simp only [submitFragment, out, ResourceMap.bind, hnext]
      rcases lt_trichotomy k f.fragments.length with hlt | rfl | hgt
      · rw [Function.update_of_ne hlt.ne, h.info, List.getElem?_append_left hlt]
      · simp [LocalFragment.info]
      · rw [Function.update_of_ne hgt.ne', h.info, List.getElem?_eq_none_iff.mpr hgt.le,
          List.getElem?_eq_none_iff.mpr (by simp; omega)]
  scalar := rfl
  fragments := rfl
  outputs := rfl
  acted := rfl
  requested := rfl
  pending := rfl

theorem submitted_foldl (l : List LocalFragment) (f : PaiFinder) :
    Submitted f (l.foldl (fun f x =>
      f.submitFragment x.authorisation x.fragment x.kind x.isMostSpecific) f) l := by
  induction l generalizing f with
  | nil => exact .refl f
  | cons x l ih => exact (submitted_submitFragment f x).trans (ih _)

theorem submitAuthorisation_eq (f : PaiFinder) (a : ReadAuthorisation) :
    f.submitAuthorisation a = if a ∈ f.submitted then f
      else (fragmentsOf a).foldl (fun f x =>
        f.submitFragment x.authorisation x.fragment x.kind x.isMostSpecific)
        { f with submitted := insert a f.submitted } := by
  unfold submitAuthorisation fragmentsOf
  by_cases ha : a ∈ f.submitted
  · simp [ha]
  · cases (PaiScheme.getFragmentKit a.readCap).intoFragmentSet with
    | complete pairs => simp [ha, List.foldl_map]
    | selective primary secondary => simp [ha, List.foldl_map, List.foldl_append]

/-- A new authorisation is submitted with all its fragments. -/
theorem submitted_submitAuthorisation (f : PaiFinder) (a : ReadAuthorisation) :
    Submitted f (f.submitAuthorisation a) (if a ∈ f.submitted then [] else fragmentsOf a) := by
  rw [submitAuthorisation_eq]
  split
  · exact .refl f
  · have hinsert : Submitted f { f with submitted := insert a f.submitted } [] :=
      ⟨fun h => ⟨h.own, h.peer, h.info, h.replies_le⟩, rfl, by simp, by simp, rfl, rfl, rfl⟩
    exact hinsert.trans (submitted_foldl _ _)

theorem submitted_foldl_submitFragment (l : List LocalFragment) (f : PaiFinder) :
    (l.foldl (fun f x =>
      f.submitFragment x.authorisation x.fragment x.kind x.isMostSpecific) f).submitted =
      f.submitted := by
  induction l generalizing f with
  | nil => rfl
  | cons x l ih => exact ih _

@[simp] theorem submitted_submitAuthorisation_eq (f : PaiFinder) (a : ReadAuthorisation) :
    (f.submitAuthorisation a).submitted = insert a f.submitted := by
  rw [submitAuthorisation_eq]
  split
  · rename_i ha
    exact (Finset.insert_eq_of_mem ha).symm
  · exact submitted_foldl_submitFragment _ _

/-- The fragments are those of the authorisations submitted. -/
def Complete (f : PaiFinder) : Prop :=
  ∀ x, x ∈ f.fragments ↔ x.authorisation ∈ f.submitted ∧ x ∈ fragmentsOf x.authorisation

theorem authorisation_of_mem_fragmentsOf {a : ReadAuthorisation} {x : LocalFragment}
    (hx : x ∈ fragmentsOf a) : x.authorisation = a := by
  unfold fragmentsOf at hx
  split at hx
  · obtain ⟨y, -, rfl⟩ := List.mem_map.mp hx
    rfl
  · rcases List.mem_append.mp hx with hx | hx
    · obtain ⟨y, -, rfl⟩ := List.mem_map.mp hx
      rfl
    · obtain ⟨y, -, rfl⟩ := List.mem_map.mp hx
      rfl

/-- **The fragments of an authorisation**: the primary ones are the prefixes of its
path in its subspace; when that is a single one there are also secondary ones in
any subspace. The most specific ones have the whole path. -/
theorem mem_fragmentsOf (hlaw : PaiScheme.Lawful) {a : ReadAuthorisation} {x : LocalFragment} :
    x ∈ fragmentsOf a ↔ x.authorisation = a ∧ ∃ q : Path,
      q.IsPrefixOf a.readCap.grantedArea.path ∧
      (x.isMostSpecific = true ↔ q = a.readCap.grantedArea.path) ∧
      (x.kind = .primary ∧
          x.fragment.intoParts = (a.namespaceId, a.readCap.grantedArea.subspace, q) ∨
        x.kind = .secondary ∧ a.readCap.grantedArea.subspace ≠ .any ∧
          x.fragment.intoParts = (a.namespaceId, .any, q)) := by
  obtain ⟨auth, fragment, kind, specific⟩ := x
  -- the last prefix is the path itself
  have hlast : ∀ {β : Type} (g : Path → β), Function.Injective g → ∀ {b : Bool} {z : β},
      (z, b) ∈ markLast ((PaiScheme.allPrefixes a.readCap.grantedArea.path).map g) ↔
        ∃ q, q.IsPrefixOf a.readCap.grantedArea.path ∧ z = g q ∧
          (b = true ↔ q = a.readCap.grantedArea.path) := by
    intro β g hg b z
    rw [mem_markLast ((hlaw.nodup_allPrefixes _).map hg) (by
      rw [List.getLast?_map, hlaw.getLast?_allPrefixes]
      rfl), List.mem_map]
    constructor
    · rintro ⟨⟨q, hq, rfl⟩, hb⟩
      exact ⟨q, (hlaw.mem_allPrefixes _ _).mp hq, rfl, hb.trans hg.eq_iff⟩
    · rintro ⟨q, hq, rfl, hb⟩
      exact ⟨⟨q, (hlaw.mem_allPrefixes _ _).mpr hq, rfl⟩, hb.trans hg.eq_iff.symm⟩
  unfold fragmentsOf PaiScheme.getFragmentKit
  cases hsub : a.readCap.grantedArea.subspace with
  | any =>
      -- only primary fragments
      have hinj : Function.Injective fun q : Path => (a.readCap.grantedNamespace, q) :=
        fun q q' h => (Prod.mk.inj h).2
      simp only [FragmentKit.intoFragmentSet, List.mem_map, Prod.exists, hlast _ hinj,
        LocalFragment.mk.injEq]
      constructor
      · rintro ⟨_, _, b, ⟨q, hq, hz, hb⟩, rfl, rfl, rfl, rfl⟩
        obtain ⟨rfl, rfl⟩ := Prod.mk.inj hz
        exact ⟨rfl, _, hq, hb, .inl ⟨rfl, rfl⟩⟩
      · rintro ⟨rfl, q, hq, hb, ⟨rfl, hparts⟩ | ⟨-, hne, -⟩⟩
        · refine ⟨auth.readCap.grantedNamespace, q, specific, ⟨q, hq, rfl, hb⟩, rfl, ?_, rfl, rfl⟩
          exact Fragment.intoParts_injective hparts.symm
        · exact absurd rfl hne
  | id subspaceId =>
      have hinj : Function.Injective fun q : Path => (a.readCap.grantedNamespace, q) :=
        fun q q' h => (Prod.mk.inj h).2
      -- the primary ones name the subspace, the secondary ones leave it open
      have hinj' : Function.Injective fun q : Path =>
          (a.readCap.grantedNamespace, subspaceId, q) :=
        fun q q' h => (Prod.mk.inj (Prod.mk.inj h).2).2
      simp only [FragmentKit.intoFragmentSet, List.mem_append, List.mem_map, Prod.exists,
        hlast _ hinj, hlast _ hinj', LocalFragment.mk.injEq]
      constructor
      · rintro (⟨_, _, _, b, ⟨q, hq, hz, hb⟩, rfl, rfl, rfl, rfl⟩ |
          ⟨_, _, b, ⟨q, hq, hz, hb⟩, rfl, rfl, rfl, rfl⟩)
        · obtain ⟨rfl, hrest⟩ := Prod.mk.inj hz
          obtain ⟨rfl, rfl⟩ := Prod.mk.inj hrest
          exact ⟨rfl, _, hq, hb, .inl ⟨rfl, rfl⟩⟩
        · obtain ⟨rfl, rfl⟩ := Prod.mk.inj hz
          exact ⟨rfl, _, hq, hb, .inr ⟨rfl, by simp, rfl⟩⟩
      · rintro ⟨rfl, q, hq, hb, ⟨rfl, hparts⟩ | ⟨rfl, -, hparts⟩⟩
        · refine .inl ⟨auth.readCap.grantedNamespace, subspaceId, q, specific,
            ⟨q, hq, rfl, hb⟩, rfl, ?_, rfl, rfl⟩
          exact Fragment.intoParts_injective hparts.symm
        · refine .inr ⟨auth.readCap.grantedNamespace, q, specific, ⟨q, hq, rfl, hb⟩, rfl, ?_,
            rfl, rfl⟩
          exact Fragment.intoParts_injective hparts.symm

theorem Complete.submitAuthorisation (h : f.Complete) (a : ReadAuthorisation) :
    (f.submitAuthorisation a).Complete := by
  intro x
  rw [(submitted_submitAuthorisation f a).fragments, submitted_submitAuthorisation_eq,
    List.mem_append, h x, Finset.mem_insert]
  by_cases ha : a ∈ f.submitted
  · simp only [ha, if_true, List.not_mem_nil, or_false]
    constructor
    · exact fun hx => ⟨.inr hx.1, hx.2⟩
    · rintro ⟨rfl | hx, hmem⟩
      · exact ⟨ha, hmem⟩
      · exact ⟨hx, hmem⟩
  · simp only [ha, if_false]
    constructor
    · rintro (hx | hx)
      · exact ⟨.inr hx.1, hx.2⟩
      · have hauth := authorisation_of_mem_fragmentsOf hx
        exact ⟨.inl hauth, hauth ▸ hx⟩
    · rintro ⟨hx | hx, hmem⟩
      · exact .inr (hx ▸ hmem)
      · exact .inl ⟨hx, hmem⟩

/-- All pending authorisations are submitted. -/
theorem submitted_drain (drained : List ReadAuthorisation) (f : PaiFinder) :
    (∃ new, Submitted f (drained.foldl submitAuthorisation f) new) ∧
      (f.Complete → (drained.foldl submitAuthorisation f).Complete) ∧
      (drained.foldl submitAuthorisation f).submitted = f.submitted ∪ drained.toFinset := by
  induction drained generalizing f with
  | nil => exact ⟨⟨[], .refl f⟩, id, by simp⟩
  | cons a drained ih =>
      obtain ⟨⟨new, hnew⟩, hcomplete, hsubmitted⟩ := ih (f.submitAuthorisation a)
      refine ⟨⟨_, (submitted_submitAuthorisation f a).trans hnew⟩,
        fun h => hcomplete (h.submitAuthorisation a), ?_⟩
      show (drained.foldl _ (f.submitAuthorisation a)).submitted = _
      rw [hsubmitted, submitted_submitAuthorisation_eq]
      simp [Finset.insert_union, Finset.union_insert]

/-! ## Receiving binds and replies -/

/-- What a reply carries. -/
def replyMessage (scalar peerScalar : PsiScalar) (handle : Nat) (y : LocalFragment) :
    IntersectionMessage :=
  .replyFragment handle (PaiScheme.toBytes (PaiScheme.scalarMult
    (PaiScheme.scalarMult (PaiScheme.hashIntoGroup y.fragment) peerScalar) scalar))

/-- A message was received: the finder has put out `sent`, and acted on the
matches `ms`, for which requests name `handle`. -/
structure Checked (f f' : PaiFinder) (handle : Nat) (sent : List Output)
    (ms : List (Nat × Nat)) : Prop where
  scalar : f'.scalar = f.scalar
  fragments : f'.fragments = f.fragments
  submitted : f'.submitted = f.submitted
  pending : f'.pending = f.pending
  acted : f'.acted = f.acted ++ ms
  outputs : f'.outputs = f.outputs ++ sent ++ ms.filterMap (reaction f.fragments handle)
  requested : f'.requestedSubspaceCapHandles = f.requestedSubspaceCapHandles ∪
    ((ms.map Prod.fst).filter (requests f.fragments)).toFinset

theorem nodup_matched {m : ResourceMap GroupState} {order : List Nat} (horder : order.Nodup)
    (handle : Nat) (scope : Scope) (intersection : GroupState) :
    (matched handle scope intersection (m.iter order)).Nodup := by
  have hkeys : ((m.iter order).map Prod.fst).Nodup := by
    refine horder.sublist ?_
    unfold ResourceMap.iter
    clear horder
    induction order with
    | nil => simp
    | cons h order ih =>
        cases hh : m.tryGet h with
        | none => simpa [List.filterMap_cons, hh] using ih.cons h
        | some r => simpa [List.filterMap_cons, hh] using ih
  have hfilter := (hkeys.of_map).filter fun x : Nat × GroupState => x.2.completesWith intersection
  refine hfilter.map_on fun x hx y hy heq => ?_
  have hfst : x.1 = y.1 := by
    cases scope with
    | ours => exact (Prod.ext_iff.mp heq).2
    | theirs => exact (Prod.ext_iff.mp heq).1
  exact List.inj_on_of_nodup_map hkeys (List.mem_of_mem_filter hx) (List.mem_of_mem_filter hy) hfst

variable {order : List Nat}

theorem Knows.mem_order_own (h : f.Knows peerScalar theirs replies) (hcov : f.Covers order)
    {o : Nat} {x : LocalFragment} (hx : f.fragments[o]? = some x) : o ∈ order := by
  refine hcov.2.1 o ?_
  rw [h.own.nextHandle, List.length_mapIdx]
  exact (List.getElem?_eq_some_iff.mp hx).1

theorem Knows.mem_order_peer (h : f.Knows peerScalar theirs replies) (hcov : f.Covers order)
    {t : Nat} {y : LocalFragment} (hy : theirs[t]? = some y) : t ∈ order := by
  refine hcov.2.2 t ?_
  rw [h.peer.nextHandle, List.length_map]
  exact (List.getElem?_eq_some_iff.mp hy).1

/-- Iterating over our fragments. -/
theorem Knows.mem_iter_own (h : f.Knows peerScalar theirs replies) (hcov : f.Covers order)
    {o : Nat} {g : GroupState} : (o, g) ∈ f.ourIntersectionHandles.iter order ↔
      ∃ x, f.fragments[o]? = some x ∧ g = x.ownState f.scalar peerScalar replies o := by
  rw [h.own.mem_iter, List.getElem?_mapIdx, Option.map_eq_some_iff]
  constructor
  · rintro ⟨-, x, hx, rfl⟩
    exact ⟨x, hx, rfl⟩
  · rintro ⟨x, hx, rfl⟩
    exact ⟨h.mem_order_own hcov hx, x, hx, rfl⟩

/-- Iterating over the fragments of the peer. -/
theorem Knows.mem_iter_peer (h : f.Knows peerScalar theirs replies) (hcov : f.Covers order)
    {t : Nat} {g : GroupState} : (t, g) ∈ f.theirIntersectionHandles.iter order ↔
      ∃ y, theirs[t]? = some y ∧ g = y.theirState f.scalar peerScalar := by
  rw [h.peer.mem_iter, List.getElem?_map, Option.map_eq_some_iff]
  constructor
  · rintro ⟨-, y, hy, rfl⟩
    exact ⟨y, hy, rfl⟩
  · rintro ⟨y, hy, rfl⟩
    exact ⟨h.mem_order_peer hcov hy, y, hy, rfl⟩

/-- **A bind.** The fragment is bound and replied to, and every fragment of ours
that was replied to and meets it is acted on. -/
theorem Knows.receiveBind (hlaw : PaiScheme.Lawful) (h : f.Knows peerScalar theirs replies)
    (hcov : f.Covers order) (y : LocalFragment) :
    ∃ f' ms, f.receiveBind order (PaiScheme.toBytes
        (PaiScheme.scalarMult (PaiScheme.hashIntoGroup y.fragment) peerScalar))
        y.kind.isSecondary = (.ok (), f') ∧
      f'.Knows peerScalar (theirs ++ [y]) replies ∧ ms.Nodup ∧
      (∀ o t, (o, t) ∈ ms ↔ t = theirs.length ∧
        Matches f.fragments (theirs ++ [y]) replies o t) ∧
      Checked f f' theirs.length
        [.sendMessage (replyMessage f.scalar peerScalar theirs.length y)] ms := by
  have hnext : f.theirIntersectionHandles.nextHandle = theirs.length := by
    simpa using h.peer.nextHandle
  set state := y.theirState f.scalar peerScalar with hstate
  set f₁ := ({ f with
    theirIntersectionHandles := (f.theirIntersectionHandles.bind state).2 }).out
      (.sendMessage (replyMessage f.scalar peerScalar theirs.length y)) with hf₁
  set ms := matched theirs.length .theirs state (f.ourIntersectionHandles.iter order) with hms
  have hmem : ∀ o t, (o, t) ∈ ms ↔ t = theirs.length ∧
      Matches f.fragments (theirs ++ [y]) replies o t := by
    intro o t
    simp only [hms, matched, handlePair, List.mem_map, List.mem_filter, Prod.exists,
      Prod.mk.injEq]
    constructor
    · rintro ⟨o', g, ⟨hiter, hc⟩, rfl, rfl⟩
      obtain ⟨x, hx, rfl⟩ := (h.mem_iter_own hcov).mp hiter
      obtain ⟨hlt, hmeets⟩ := (LocalFragment.completesWith_iff hlaw).mp hc
      exact ⟨rfl, hlt, x, y, hx, by simp, hmeets⟩
    · rintro ⟨rfl, hlt, x, y', hx, hy', hmeets⟩
      obtain rfl : y = y' := by simpa using hy'
      exact ⟨o, _, ⟨(h.mem_iter_own hcov).mpr ⟨x, hx, rfl⟩,
        (LocalFragment.completesWith_iff hlaw).mpr ⟨hlt, hmeets⟩⟩, rfl, rfl⟩
  have hknows : f₁.Knows peerScalar (theirs ++ [y]) replies := by
    refine ⟨h.own, ?_, h.info, h.replies_le⟩
    rw [List.map_append]
    exact h.peer.bind
  have hloop : checkAgainst theirs.length .theirs state (f₁.ourIntersectionHandles.iter order) f₁ =
      (.ok (), f₁.actOn theirs.length ms) := by
    refine checkAgainst_eq h.info fun m hm => ?_
    obtain ⟨-, -, x, -, hx, -⟩ := (hmem m.1 m.2).mp hm
    exact (List.getElem?_eq_some_iff.mp hx).1
  refine ⟨f₁.actOn theirs.length ms, ms, ?_, ⟨hknows.own, hknows.peer, hknows.info,
    hknows.replies_le⟩, nodup_matched hcov.1 _ _ _, hmem, ?_⟩
  · have hget : f₁.theirIntersectionHandles.tryGet theirs.length = some state := by
      rw [← hnext]
      exact ResourceMap.tryGet_bind_self
    have hcomplete : state.isComplete = true := by
      simp [hstate, LocalFragment.theirState, GroupState.isComplete, GroupState.newComplete]
    rw [PaiFinder.receiveBind, hlaw.fromBytes_toBytes]
    have hcall : f₁.checkForIntersection order theirs.length .theirs =
        (.ok (), f₁.actOn theirs.length ms) := by
      simp only [checkForIntersection, hget, hcomplete, Bool.not_true, Bool.false_eq_true,
        if_false]
      exact hloop
    rw [← hcall, hf₁]
    simp only [ResourceMap.bind, hnext]
    rfl
  · refine ⟨rfl, rfl, rfl, rfl, rfl, rfl, rfl⟩

theorem ownState_succ {s s' : PsiScalar} {l : List LocalFragment} {n : Nat} {x : LocalFragment}
    (hx : l[n]? = some x) :
    (l.mapIdx fun h x => x.ownState s s' n h).set n (.newComplete (PaiScheme.scalarMult
      (PaiScheme.scalarMult (PaiScheme.hashIntoGroup x.fragment) s) s') x.kind.isSecondary) =
      l.mapIdx fun h x => x.ownState s s' (n + 1) h := by
  refine List.ext_getElem? fun k => ?_
  rw [List.getElem?_set, List.getElem?_mapIdx, List.getElem?_mapIdx, List.length_mapIdx]
  by_cases hk : n = k
  · subst hk
    have hlt := (List.getElem?_eq_some_iff.mp hx).1
    rw [if_pos rfl, if_pos hlt, hx]
    simp [LocalFragment.ownState]
  · rw [if_neg hk]
    have hiff : k < n ↔ k < n + 1 := by omega
    simp only [LocalFragment.ownState, hiff]

/-- **A reply.** The next fragment of ours is completed, and acted on with every
fragment of the peer that it meets. -/
theorem Knows.receiveReply (hlaw : PaiScheme.Lawful) (h : f.Knows peerScalar theirs replies)
    (hcov : f.Covers order) {x : LocalFragment} (hx : f.fragments[replies]? = some x) :
    ∃ f' ms, f.receiveReply order replies (PaiScheme.toBytes (PaiScheme.scalarMult
        (PaiScheme.scalarMult (PaiScheme.hashIntoGroup x.fragment) f.scalar) peerScalar)) =
        (.ok (), f') ∧
      f'.Knows peerScalar theirs (replies + 1) ∧ ms.Nodup ∧
      (∀ o t, (o, t) ∈ ms ↔ o = replies ∧ Matches f.fragments theirs (replies + 1) o t) ∧
      Checked f f' replies [] ms := by
  have hlt := (List.getElem?_eq_some_iff.mp hx).1
  set next := GroupState.newComplete (PaiScheme.scalarMult (PaiScheme.scalarMult
    (PaiScheme.hashIntoGroup x.fragment) f.scalar) peerScalar) x.kind.isSecondary with hnext
  obtain ⟨handles, hupdate, hmirrors⟩ :=
    @ResourceMap.Mirrors.update _ _ next _ h.own replies (by simpa using hlt)
  rw [ownState_succ hx] at hmirrors
  set f₁ : PaiFinder := { f with ourIntersectionHandles := handles } with hf₁
  have hknows : f₁.Knows peerScalar theirs (replies + 1) := ⟨hmirrors, h.peer, h.info, hlt⟩
  have hstate : next = x.ownState f.scalar peerScalar (replies + 1) replies := by
    simp [hnext, LocalFragment.ownState]
  set ms := matched replies .ours next (f.theirIntersectionHandles.iter order) with hms
  -- the pairs that are found are those that the reply completes
  have hmem : ∀ o t, (o, t) ∈ ms ↔ o = replies ∧
      Matches f.fragments theirs (replies + 1) o t := by
    intro o t
    simp only [hms, matched, handlePair, List.mem_map, List.mem_filter, Prod.exists,
      Prod.mk.injEq, hstate, GroupState.completesWith_comm _ (x.ownState _ _ _ _)]
    constructor
    · rintro ⟨t', g, ⟨hiter, hc⟩, rfl, rfl⟩
      obtain ⟨y, hy, rfl⟩ := (h.mem_iter_peer hcov).mp hiter
      obtain ⟨hlt', hmeets⟩ := (LocalFragment.completesWith_iff hlaw).mp hc
      exact ⟨rfl, hlt', x, y, hx, hy, hmeets⟩
    · rintro ⟨rfl, hlt', x', y, hx', hy, hmeets⟩
      obtain rfl : x = x' := Option.some.inj (hx.symm.trans hx')
      exact ⟨t, _, ⟨(h.mem_iter_peer hcov).mpr ⟨y, hy, rfl⟩,
        (LocalFragment.completesWith_iff hlaw).mpr ⟨hlt', hmeets⟩⟩, rfl, rfl⟩
  have hloop : checkAgainst replies .ours next (f₁.theirIntersectionHandles.iter order) f₁ =
      (.ok (), f₁.actOn replies ms) := by
    refine checkAgainst_eq h.info fun m hm => ?_
    obtain ⟨-, -, x, -, hx, -⟩ := (hmem m.1 m.2).mp hm
    exact (List.getElem?_eq_some_iff.mp hx).1
  refine ⟨f₁.actOn replies ms, ms, ?_, ⟨hknows.own, hknows.peer, hknows.info,
    hknows.replies_le⟩, nodup_matched hcov.1 _ _ _, hmem, ?_⟩
  · -- the reply is for the next fragment, whose state is still partial
    have hold : f.ourIntersectionHandles.tryGet replies =
        some (x.ownState f.scalar peerScalar replies replies) := by
      rw [h.own.tryGet, List.getElem?_mapIdx, hx]
      rfl
    have hget : f₁.ourIntersectionHandles.tryGet replies = some next := by
      rw [hknows.own.tryGet, List.getElem?_mapIdx, hstate]
      simp [hf₁, hx]
    have hcomplete : next.isComplete = true := by
      simp [hnext, GroupState.isComplete, GroupState.newComplete]
    rw [PaiFinder.receiveReply, hlaw.fromBytes_toBytes]
    simp only [hold, LocalFragment.isSecondary_ownState, ← hnext, hupdate]
    have hcall : f₁.checkForIntersection order replies .ours =
        (.ok (), f₁.actOn replies ms) := by
      simp only [checkForIntersection, hget, hcomplete, Bool.not_true, Bool.false_eq_true,
        if_false]
      exact hloop
    exact hcall
  · exact ⟨rfl, rfl, rfl, rfl, rfl, by simp [actOn, hf₁], rfl⟩

/-! ## Receiving capabilities and requests -/

/-- The finder with more outputs. -/
def outAll (f : PaiFinder) (outputs : List Output) : PaiFinder :=
  { f with outputs := f.outputs ++ outputs }

/-- The intersection put out for a fragment of ours when a read capability comes
for the fragment `y` of the peer. -/
def replyTo (own : List LocalFragment) (replies : Nat) (y : LocalFragment) (o : Nat) :
    Option PaiIntersection :=
  match own[o]? with
  | none => none
  | some x =>
      if o < replies ∧ x.Meets y ∧ x.info.onIntersection = .replyReadCap then
        some (x.info.toPaiIntersection o)
      else none

/-- The subspace capability sent for a fragment of ours when one is requested for
the fragment `y` of the peer. -/
def answerTo (own : List LocalFragment) (replies : Nat) (y : LocalFragment) (o : Nat) :
    Option SubspaceCapability :=
  match own[o]? with
  | none => none
  | some x =>
      if o < replies ∧ x.fragment = y.fragment then x.authorisation.subspaceCap else none

/-- **A read capability.** Intersections are put out for our less specific
fragments that were replied to and meet the fragment of the peer. -/
theorem Knows.receivedReadCapForIntersection (hlaw : PaiScheme.Lawful)
    (h : f.Knows peerScalar theirs replies) {t : Nat} {y : LocalFragment}
    (hy : theirs[t]? = some y) :
    f.receivedReadCapForIntersection order t = (.ok (), f.outAll
      ((order.filterMap (replyTo f.fragments replies y)).map .newIntersection)) := by
  have hget : f.theirIntersectionHandles.tryGet t = some (y.theirState f.scalar peerScalar) := by
    rw [h.peer.tryGet, List.getElem?_map, hy]
    rfl
  have hown := h.own.tryGet
  have hinfo := h.info
  rw [PaiFinder.receivedReadCapForIntersection, hget]
  -- the loop changes the outputs only
  have hloop : ∀ (order : List Nat) (outs : List Output), replyReadCaps
      (y.theirState f.scalar peerScalar) (f.ourIntersectionHandles.iter order) (f.outAll outs) =
      (.ok (), f.outAll (outs ++
        (order.filterMap (replyTo f.fragments replies y)).map .newIntersection)) := by
    intro order
    induction order with
    | nil => intro outs; simp [ResourceMap.iter, replyReadCaps]
    | cons o order ih =>
        intro outs
        unfold ResourceMap.iter at ih ⊢
        rw [List.filterMap_cons, List.filterMap_cons, hown, List.getElem?_mapIdx]
        cases hx : f.fragments[o]? with
        | none => simpa [replyTo, hx] using ih outs
        | some x =>
            have hget' : (f.outAll outs).fragmentsInfo o = some x.info := by
              show f.fragmentsInfo o = _
              rw [hinfo, hx]
              rfl
            simp only [Option.map_some, replyReadCaps, hget', replyTo, hx]
            by_cases hc : o < replies ∧ x.Meets y
            · have hcw := (@LocalFragment.completesWith_iff _ hlaw f.scalar peerScalar
                _ _ _ _).mpr hc
              by_cases hreply : x.info.onIntersection = .replyReadCap
              · have := ih (outs ++ [.newIntersection (x.info.toPaiIntersection o)])
                simpa [hcw, hc, hreply, outAll, out] using this
              · simpa [hcw, hreply] using ih outs
            · have hcw : (x.ownState f.scalar peerScalar replies o).completesWith
                  (y.theirState f.scalar peerScalar) = false := by
                rw [Bool.eq_false_iff, ne_eq, LocalFragment.completesWith_iff hlaw]
                exact hc
              have hno : ¬ (o < replies ∧ x.Meets y ∧ x.info.onIntersection = .replyReadCap) :=
                fun h => hc ⟨h.1, h.2.1⟩
              simpa [hcw, hno] using ih outs
  have := hloop order []
  simpa [outAll] using this

/-- **A request.** A subspace capability is sent for each fragment of ours that
was replied to and is equal to the fragment of the peer. -/
theorem Knows.receivedSubspaceCapRequest (hlaw : PaiScheme.Lawful)
    (h : f.Knows peerScalar theirs replies) {t : Nat} {y : LocalFragment}
    (hy : theirs[t]? = some y) :
    f.receivedSubspaceCapRequest order t = (.ok (), f.outAll
      ((order.filterMap (answerTo f.fragments replies y)).map (.signAndSendSubspaceCap t))) := by
  have hget : f.theirIntersectionHandles.tryGet t = some (y.theirState f.scalar peerScalar) := by
    rw [h.peer.tryGet, List.getElem?_map, hy]
    rfl
  have hown := h.own.tryGet
  have hinfo := h.info
  rw [PaiFinder.receivedSubspaceCapRequest, hget]
  -- over the visited handles, with what was put out so far
  have hloop : ∀ (order : List Nat) (outs : List Output), replySubspaceCaps t
      (y.theirState f.scalar peerScalar) (f.ourIntersectionHandles.iter order) (f.outAll outs) =
      (.ok (), f.outAll (outs ++
        (order.filterMap (answerTo f.fragments replies y)).map (.signAndSendSubspaceCap t))) := by
    intro order
    induction order with
    | nil => intro outs; simp [ResourceMap.iter, replySubspaceCaps]
    | cons o order ih =>
        intro outs
        unfold ResourceMap.iter at ih ⊢
        rw [List.filterMap_cons, List.filterMap_cons, hown, List.getElem?_mapIdx]
        cases hx : f.fragments[o]? with
        | none => simpa [answerTo, hx] using ih outs
        | some x =>
            have hget' : (f.outAll outs).fragmentsInfo o = some x.info := by
              show f.fragmentsInfo o = _
              rw [hinfo, hx]
              rfl
            simp only [Option.map_some, replySubspaceCaps, hget', answerTo, hx]
            -- only fragments with a reply can be compared
            by_cases ho : o < replies
            · have hcomplete : (x.ownState f.scalar peerScalar replies o).isComplete = true :=
                LocalFragment.isComplete_ownState.mpr ho
              have hgroup : PaiScheme.isGroupEqual (y.theirState f.scalar peerScalar).group
                  (x.ownState f.scalar peerScalar replies o).group =
                  decide (x.fragment = y.fragment) := by
                rw [LocalFragment.group_ownState ho, PaiScheme.isGroupEqual]
                exact decide_eq_decide.mpr (eq_comm.trans hlaw.group_eq_iff)
              by_cases hfrag : x.fragment = y.fragment
              · cases hcap : x.authorisation.subspaceCap with
                | none =>
                    have hcap' : x.info.authorisation.subspaceCap = none := hcap
                    simpa [hcomplete, hgroup, hfrag, hcap'] using ih outs
                | some cap =>
                    have hcap' : x.info.authorisation.subspaceCap = some cap := hcap
                    have := ih (outs ++ [.signAndSendSubspaceCap t cap])
                    simpa [hcomplete, hgroup, hfrag, hcap', ho, outAll, out] using this
              · simpa [hcomplete, hgroup, hfrag] using ih outs
            · have hcomplete : (x.ownState f.scalar peerScalar replies o).isComplete = false := by
                rw [Bool.eq_false_iff, ne_eq, LocalFragment.isComplete_ownState]
                exact ho
              simpa [hcomplete, ho] using ih outs
  have := hloop order []
  simpa [outAll] using this

/-- **A verified reply.** It is accepted for a requested handle of ours in the
right namespace. -/
theorem Knows.receivedVerifiedSubspaceCapReply (h : f.Knows peerScalar theirs replies) {o : Nat}
    {x : LocalFragment} (hx : f.fragments[o]? = some x)
    (hrequested : o ∈ f.requestedSubspaceCapHandles) (ns : NamespaceId) :
    f.receivedVerifiedSubspaceCapReply o ns =
      let f' := { f with
        requestedSubspaceCapHandles := f.requestedSubspaceCapHandles.erase o }
      if x.info.namespaceId ≠ ns then (.error .subspaceCapRequestForWrongNamespace, f')
      else (.ok (), f'.out (.newIntersection (x.info.toPaiIntersection o))) := by
  have hget : f.ourIntersectionHandles.tryGet o =
      some (x.ownState f.scalar peerScalar replies o) := by
    rw [h.own.tryGet, List.getElem?_mapIdx, hx]
    rfl
  have hinfo : f.fragmentsInfo o = some x.info := by
    rw [h.info, hx]
    rfl
  simp only [PaiFinder.receivedVerifiedSubspaceCapReply, hrequested, not_true_eq_false, if_false,
    hget, hinfo]

/-! ## The inputs of a session -/

/-- What an input other than a message can do, when the peer has bound `theirs`
and replied to the first `replies` of our fragments. -/
inductive Reacts (f : PaiFinder) (theirs : List LocalFragment) (replies : Nat)
    (order : List Nat) : Input → Except Failure Unit → PaiFinder → Prop
  | queued {a : ReadAuthorisation} {pending : Finset ReadAuthorisation}
      (hpending : f.pending = some pending) :
      Reacts f theirs replies order (.submitAuthorisation a) (.ok ())
        { f with pending := some (insert a pending) }
  | submitted {a : ReadAuthorisation} {f' : PaiFinder} {new : List LocalFragment}
      (hpending : f.pending = none) (hnew : Submitted f f' new)
      (hcomplete : f.Complete → f'.Complete) (hsubmitted : f'.submitted = insert a f.submitted) :
      Reacts f theirs replies order (.submitAuthorisation a) (.ok ()) f'
  | established {f' : PaiFinder} {new : List LocalFragment} {pending : Finset ReadAuthorisation}
      (hpending : f.pending = some pending) (hnew : Submitted { f with pending := none } f' new)
      (hcomplete : f.Complete → f'.Complete) (hsubmitted : f'.submitted = f.submitted ∪ pending) :
      Reacts f theirs replies order .established (.ok ()) f'
  | establishedAgain (hpending : f.pending = none) :
      Reacts f theirs replies order .established (.ok ()) f
  | request {t : Nat} {y : LocalFragment} (hy : theirs[t]? = some y) :
      Reacts f theirs replies order (.receivedSubspaceCapRequest t) (.ok ()) (f.outAll
        ((order.filterMap (answerTo f.fragments replies y)).map (.signAndSendSubspaceCap t)))
  | requestMissing {t : Nat} (hy : theirs[t]? = none) :
      Reacts f theirs replies order (.receivedSubspaceCapRequest t)
        (.error (.missingResource t)) f
  | readCap {t : Nat} {y : LocalFragment} (hy : theirs[t]? = some y) :
      Reacts f theirs replies order (.receivedReadCapForIntersection t) (.ok ()) (f.outAll
        ((order.filterMap (replyTo f.fragments replies y)).map .newIntersection))
  | readCapMissing {t : Nat} (hy : theirs[t]? = none) :
      Reacts f theirs replies order (.receivedReadCapForIntersection t)
        (.error (.missingResource t)) f
  | reply {o : Nat} {ns : NamespaceId} {x : LocalFragment} (hx : f.fragments[o]? = some x)
      (hrequested : o ∈ f.requestedSubspaceCapHandles) (hns : x.info.namespaceId = ns) :
      Reacts f theirs replies order (.receivedVerifiedSubspaceCapReply o ns) (.ok ())
        (({ f with
          requestedSubspaceCapHandles := f.requestedSubspaceCapHandles.erase o }).out
          (.newIntersection (x.info.toPaiIntersection o)))
  | replyWrongNamespace {o : Nat} {ns : NamespaceId} {x : LocalFragment}
      (hx : f.fragments[o]? = some x) (hrequested : o ∈ f.requestedSubspaceCapHandles)
      (hns : x.info.namespaceId ≠ ns) :
      Reacts f theirs replies order (.receivedVerifiedSubspaceCapReply o ns)
        (.error .subspaceCapRequestForWrongNamespace)
        { f with requestedSubspaceCapHandles := f.requestedSubspaceCapHandles.erase o }
  | replyInvalid {o : Nat} {ns : NamespaceId} (hrequested : o ∉ f.requestedSubspaceCapHandles) :
      Reacts f theirs replies order (.receivedVerifiedSubspaceCapReply o ns)
        (.error .subspaceCapRequestForInvalidHandle) f

/-- **One input.** -/
theorem Knows.reacts (hlaw : PaiScheme.Lawful) (h : f.Knows peerScalar theirs replies)
    (hbound : ∀ o ∈ f.requestedSubspaceCapHandles, o < f.fragments.length)
    {drained : List ReadAuthorisation} {input : Input} (hdrains : f.Drains drained input)
    (hinput : ∀ m, input ≠ .receivedMessage m) :
    Reacts f theirs replies order input (f.onInput order drained input).1
      (f.onInput order drained input).2 := by
  -- a handle that was never received is not bound
  have hmissing : ∀ {t : Nat}, theirs[t]? = none → f.theirIntersectionHandles.tryGet t = none := by
    intro t ht
    rw [h.peer.tryGet, List.getElem?_map, ht]
    rfl
  cases input with
  | receivedMessage m => exact absurd rfl (hinput m)
  | established =>
      cases hpending : f.pending with
      | none =>
          simp only [onInput, hpending]
          exact .establishedAgain hpending
      | some pending =>
          obtain ⟨⟨new, hnew⟩, hcomplete, hsubmitted⟩ :=
            submitted_drain drained { f with pending := none }
          -- `established` takes up all that was submitted before
          have hset : drained.toFinset = pending := by
            have := hdrains.2
            rwa [hpending] at this
          simp only [onInput, hpending]
          exact .established hpending hnew hcomplete (hset ▸ hsubmitted)
  | submitAuthorisation a =>
      cases hpending : f.pending with
      | none =>
          simp only [onInput, hpending]
          exact .submitted hpending (submitted_submitAuthorisation f a)
            (fun hc => hc.submitAuthorisation a) (submitted_submitAuthorisation_eq f a)
      | some pending =>
          simp only [onInput, hpending]
          exact .queued hpending
  | receivedSubspaceCapRequest t =>
      cases hy : theirs[t]? with
      | none =>
          simp only [onInput, PaiFinder.receivedSubspaceCapRequest, hmissing hy]
          exact .requestMissing hy
      | some y =>
          simp only [onInput, h.receivedSubspaceCapRequest hlaw hy]
          exact .request hy
  | receivedReadCapForIntersection t =>
      cases hy : theirs[t]? with
      | none =>
          simp only [onInput, PaiFinder.receivedReadCapForIntersection, hmissing hy]
          exact .readCapMissing hy
      | some y =>
          simp only [onInput, h.receivedReadCapForIntersection hlaw hy]
          exact .readCap hy
  | receivedVerifiedSubspaceCapReply o ns =>
      by_cases hrequested : o ∈ f.requestedSubspaceCapHandles
      · -- a requested handle is one of our own fragments
        have hx := List.getElem?_eq_getElem (hbound o hrequested)
        simp only [onInput, h.receivedVerifiedSubspaceCapReply hx hrequested]
        split
        · rename_i hns
          exact .replyWrongNamespace hx hrequested hns
        · rename_i hns
          exact .reply hx hrequested (not_not.mp hns)
      · simp only [onInput, PaiFinder.receivedVerifiedSubspaceCapReply, hrequested,
          not_false_eq_true, if_true]
        exact .replyInvalid hrequested

end PaiFinder

end IrohWillow
