import IrohWillow.Session.AoiAnnouncements

/-!
# Two intersection finders

The capability and area of interest channels between two sessions, with the
inboxes of their `IntersectionFinder`s: `intersection_loop`, `caps_recv_loop` and
`aoi_recv_loop` of `session/run.rs`. Interests and private area intersections come
in any order. Handles are never sent; both sessions count what they send and
receive. When all is delivered and processed, both have put out the same
intersections, which are those of all areas of interest that are bound.
-/

namespace IrohWillow

/-! ## The intersections put out by one finder -/

namespace IntersectionFinder

variable [WillowDataModel]

/-- The areas of interest under the two handles intersect, in one namespace. -/
def Intersects (ours theirs : List AoiInfo) (i : AoiIntersection) : Prop :=
  ∃ x y, ours[i.ourHandle]? = some x ∧ theirs[i.theirHandle]? = some y ∧
    x.namespaceId = i.namespaceId ∧ y.namespaceId = i.namespaceId ∧
    WillowDataModel.intersection x.aoi y.aoi = some i.intersection

/-- The finder has bound the areas of interest and put out all intersections, each
handle pair once. -/
structure Enumerates (f : IntersectionFinder) (ours theirs : List AoiInfo) : Prop where
  ourHandles : f.handles.ourHandles.Mirrors ours
  theirHandles : f.handles.theirHandles.Mirrors theirs
  nodup : ((found f.outputs).map AoiIntersection.id).Nodup
  mem : ∀ i, i ∈ found f.outputs ↔ Intersects ours theirs i

variable {f f' : IntersectionFinder} {ours theirs : List AoiInfo}

/-- Outputs without intersections change nothing. -/
theorem Enumerates.congr (h : f.Enumerates ours theirs) (hhandles : f'.handles = f.handles)
    (hfound : found f'.outputs = found f.outputs) : f'.Enumerates ours theirs :=
  ⟨hhandles ▸ h.ourHandles, hhandles ▸ h.theirHandles, hfound ▸ h.nodup, hfound ▸ h.mem⟩

/-- What a newly bound area of interest of ours intersects. -/
theorem mem_intersections_ours (hcomm : ∀ a b : AreaOfInterest,
    WillowDataModel.intersection a b = WillowDataModel.intersection b a) {k : Nat} {info : AoiInfo}
    {others : ResourceMap AoiInfo} (hothers : others.Mirrors theirs) {i : AoiIntersection} :
    i ∈ AoiResources.intersections .ours k info others ↔ i.ourHandle = k ∧
      ∃ y, theirs[i.theirHandle]? = some y ∧ info.namespaceId = i.namespaceId ∧
        y.namespaceId = i.namespaceId ∧
        WillowDataModel.intersection info.aoi y.aoi = some i.intersection := by
  unfold AoiResources.intersections
  rw [List.mem_filterMap]
  constructor
  · rintro ⟨⟨j, y⟩, hmem, heq⟩
    split at heq
    · cases heq
    · rename_i hns
      obtain ⟨c, hc, rfl⟩ := Option.map_eq_some_iff.mp heq
      have hget : others.tryGet j = some y := AList.mem_lookup_iff.mpr hmem
      exact ⟨rfl, y, hothers.tryGet j ▸ hget, rfl, not_not.mp hns, (hcomm _ _).trans hc⟩
  · rintro ⟨rfl, y, hy, hns, hns', hc⟩
    refine ⟨⟨i.theirHandle, y⟩, AList.mem_lookup_iff.mp ((hothers.tryGet _).trans hy), ?_⟩
    rw [if_neg (by simp [hns, hns']), hcomm, hc, hns]
    rfl

theorem mem_intersections_theirs {k : Nat} {info : AoiInfo} {others : ResourceMap AoiInfo}
    (hothers : others.Mirrors ours) {i : AoiIntersection} :
    i ∈ AoiResources.intersections .theirs k info others ↔ i.theirHandle = k ∧
      ∃ x, ours[i.ourHandle]? = some x ∧ x.namespaceId = i.namespaceId ∧
        info.namespaceId = i.namespaceId ∧
        WillowDataModel.intersection x.aoi info.aoi = some i.intersection := by
  unfold AoiResources.intersections
  rw [List.mem_filterMap]
  constructor
  · rintro ⟨⟨j, x⟩, hmem, heq⟩
    split at heq
    · cases heq
    · rename_i hns
      obtain ⟨c, hc, rfl⟩ := Option.map_eq_some_iff.mp heq
      have hget : others.tryGet j = some x := AList.mem_lookup_iff.mpr hmem
      exact ⟨rfl, x, hothers.tryGet j ▸ hget, not_not.mp hns, rfl, hc⟩
  · rintro ⟨rfl, x, hx, hns, hns', hc⟩
    refine ⟨⟨i.ourHandle, x⟩, AList.mem_lookup_iff.mp ((hothers.tryGet _).trans hx), ?_⟩
    rw [if_neg (by simp [hns, hns']), hc, hns']
    rfl

/-- The intersections of one area of interest have distinct handles. -/
theorem nodup_intersections (scope : Scope) (k : Nat) (info : AoiInfo)
    (others : ResourceMap AoiInfo) :
    ((AoiResources.intersections scope k info others).map AoiIntersection.id).Nodup := by
  have hkeys := List.nodupKeys_iff_pairwise.mp others.map.nodupKeys
  rw [List.Nodup, List.pairwise_map, AoiResources.intersections]
  refine hkeys.filterMap _ fun e e' hne i hi i' hi' => ?_
  split at hi
  · cases hi
  · split at hi'
    · cases hi'
    · obtain ⟨c, -, rfl⟩ := Option.map_eq_some_iff.mp hi
      obtain ⟨c', -, rfl⟩ := Option.map_eq_some_iff.mp hi'
      cases scope with
      | ours => exact fun heq => hne (Prod.mk.inj heq).2
      | theirs => exact fun heq => hne (Prod.mk.inj heq).1

omit [WillowDataModel] in
/-- Intersections with a new handle are put out after those with old handles. -/
theorem nodup_found_append {old new : List AoiIntersection}
    (hold : (old.map AoiIntersection.id).Nodup) (hnew : (new.map AoiIntersection.id).Nodup)
    (hne : ∀ i ∈ old, ∀ j ∈ new, i.id ≠ j.id) : ((old ++ new).map AoiIntersection.id).Nodup := by
  rw [List.map_append, List.nodup_append]
  refine ⟨hold, hnew, fun k hk k' hk' => ?_⟩
  obtain ⟨i, hi, rfl⟩ := List.mem_map.mp hk
  obtain ⟨j, hj, rfl⟩ := List.mem_map.mp hk'
  exact hne i hi j hj

omit [WillowDataModel] in
/-- A handle that is one past the end stands for the last element after it was added. -/
theorem getElem?_concat {α : Type} {l : List α} {x y : α} {k : Nat} :
    (l ++ [x])[k]? = some y ↔ l[k]? = some y ∨ k = l.length ∧ y = x := by
  rcases lt_trichotomy k l.length with hlt | rfl | hgt
  · rw [List.getElem?_append_left hlt]
    simp [hlt.ne]
  · simp [eq_comm]
  · simp [hgt.ne', List.getElem?_eq_none_iff.mpr hgt.le, show (l ++ [x])[k]? = none by
      rw [List.getElem?_eq_none_iff]
      simpa using hgt]

/-- Binding an area of interest of ours. -/
theorem Enumerates.bindOurs (hcomm : ∀ a b : AreaOfInterest,
    WillowDataModel.intersection a b = WillowDataModel.intersection b a)
    (h : f.Enumerates ours theirs) (ns : NamespaceId) (aoi : AreaOfInterest) :
    (f.bindValidated .ours ns aoi).Enumerates (ours ++ [⟨aoi, ns⟩]) theirs := by
  have hfound : found (f.bindValidated .ours ns aoi).outputs = found f.outputs ++
      AoiResources.intersections .ours ours.length ⟨aoi, ns⟩ f.handles.theirHandles := by
    rw [← h.ourHandles.nextHandle]
    show found (f.outputs ++ List.map _ _) = _
    simp [found]
  refine ⟨h.ourHandles.bind, h.theirHandles, ?_, fun i => ?_⟩
  · rw [hfound]
    refine nodup_found_append h.nodup (nodup_intersections _ _ _ _) fun i hi j hj heq => ?_
    obtain ⟨x, y, hx, -⟩ := (h.mem i).mp hi
    obtain ⟨hj, -⟩ := (mem_intersections_ours hcomm h.theirHandles).mp hj
    have hlt := (List.getElem?_eq_some_iff.mp hx).1
    rw [(Prod.mk.inj heq).1, hj] at hlt
    exact lt_irrefl _ hlt
  · rw [hfound, List.mem_append, h.mem, mem_intersections_ours hcomm h.theirHandles]
    constructor
    · rintro (⟨x, y, hx, hrest⟩ | ⟨hk, y, hy, hns, hns', hc⟩)
      · exact ⟨x, y, getElem?_concat.mpr (.inl hx), hrest⟩
      · exact ⟨⟨aoi, ns⟩, y, getElem?_concat.mpr (.inr ⟨hk, rfl⟩), hy, hns, hns', hc⟩
    · rintro ⟨x, y, hx, hy, hns, hns', hc⟩
      rcases getElem?_concat.mp hx with hx | ⟨hk, rfl⟩
      · exact .inl ⟨x, y, hx, hy, hns, hns', hc⟩
      · exact .inr ⟨hk, y, hy, hns, hns', hc⟩

/-- Binding an area of interest of the peer. -/
theorem Enumerates.bindTheirs (h : f.Enumerates ours theirs) (ns : NamespaceId)
    (aoi : AreaOfInterest) :
    (f.bindValidated .theirs ns aoi).Enumerates ours (theirs ++ [⟨aoi, ns⟩]) := by
  have hfound : found (f.bindValidated .theirs ns aoi).outputs = found f.outputs ++
      AoiResources.intersections .theirs theirs.length ⟨aoi, ns⟩ f.handles.ourHandles := by
    rw [← h.theirHandles.nextHandle]
    show found (f.outputs ++ List.map _ _) = _
    simp [found]
  refine ⟨h.ourHandles, h.theirHandles.bind, ?_, fun i => ?_⟩
  · rw [hfound]
    refine nodup_found_append h.nodup (nodup_intersections _ _ _ _) fun i hi j hj heq => ?_
    obtain ⟨x, y, -, hy, -⟩ := (h.mem i).mp hi
    obtain ⟨hj, -⟩ := (mem_intersections_theirs h.ourHandles).mp hj
    have hlt := (List.getElem?_eq_some_iff.mp hy).1
    rw [(Prod.mk.inj heq).2, hj] at hlt
    exact lt_irrefl _ hlt
  · rw [hfound, List.mem_append, h.mem, mem_intersections_theirs h.ourHandles]
    constructor
    · rintro (⟨x, y, hx, hy, hrest⟩ | ⟨hk, x, hx, hns, hns', hc⟩)
      · exact ⟨x, y, hx, getElem?_concat.mpr (.inl hy), hrest⟩
      · exact ⟨x, ⟨aoi, ns⟩, hx, getElem?_concat.mpr (.inr ⟨hk, rfl⟩), hns, hns', hc⟩
    · rintro ⟨x, y, hx, hy, hns, hns', hc⟩
      rcases getElem?_concat.mp hy with hy | ⟨hk, rfl⟩
      · exact .inl ⟨x, y, hx, hy, hns, hns', hc⟩
      · exact .inr ⟨hk, x, hx, hns, hns', hc⟩

theorem Enumerates.bindAndSendOurs (hcomm : ∀ a b : AreaOfInterest,
    WillowDataModel.intersection a b = WillowDataModel.intersection b a)
    (h : f.Enumerates ours theirs) (ns : NamespaceId) (k : Nat) (aoi : AreaOfInterest) :
    (f.bindAndSendOurs ns k aoi).Enumerates (ours ++ [⟨aoi, ns⟩]) theirs := by
  refine (h.bindOurs hcomm ns aoi).congr rfl ?_
  show found (_ ++ [Output.sendMessage aoi k]) = _
  simp [found]

/-! ## One input, move by move -/

/-- The moves of the finder while it takes interests or an intersection. -/
inductive Moves (input : Input) : IntersectionFinder → IntersectionFinder → Prop
  | submit {f : IntersectionFinder} {a : ReadAuthorisation} {aois : List AreaOfInterest}
      (hunknown : f.interests a = none)
      (hmem : ∃ interests, input = .addInterests interests ∧ (a, aois) ∈ interests) :
      Moves input f (({ f with interests := Function.update f.interests a (some aois) }).yield
        [.submitAuthorisation a])
  | insert {f : IntersectionFinder} {a : ReadAuthorisation} {existing : List AreaOfInterest}
      {aoi : AreaOfInterest} (hknown : f.interests a = some existing)
      (hmem : ∃ interests aois, input = .addInterests interests ∧ (a, aois) ∈ interests ∧
        aoi ∈ aois) :
      Moves input f { f with
        interests := Function.update f.interests a (some (existing ++ [aoi])) }
  | send {f : IntersectionFinder} {a : ReadAuthorisation} {aois : List AreaOfInterest}
      {aoi : AreaOfInterest} {h : Nat} (hknown : f.interests a = some aois) (hmem : aoi ∈ aois)
      (hbound : f.caps.ours.tryGet h = some a.readCap) :
      Moves input f (f.bindAndSendOurs a.namespaceId h aoi)
  | bindCapability {f : IntersectionFinder} {a : ReadAuthorisation} {handle : Nat}
      (hknown : f.interests a ≠ none) (hnew : f.caps.ours.find a.readCap = none) :
      Moves input f
        (({ f with caps := { f.caps with ours := (f.caps.ours.bind a.readCap).2 } }).yield
          [.signAndSendCapability handle a.readCap])

open Relation (ReflTransGen)

theorem moves_addKnown {input : Input} {a : ReadAuthorisation}
    (hknown : f.interests a ≠ none) {aoi : AreaOfInterest}
    (hmem : ∃ interests aois, input = .addInterests interests ∧ (a, aois) ∈ interests ∧
      aoi ∈ aois) :
    ReflTransGen (Moves input) f (addKnown a f aoi) ∧ (addKnown a f aoi).interests a ≠ none := by
  obtain ⟨existing, hexisting⟩ := Option.ne_none_iff_exists'.mp hknown
  simp only [addKnown, hexisting, Option.getD_some]
  split
  · exact ⟨.refl, hknown⟩
  · have hinsert : ReflTransGen (Moves input) f { f with
        interests := Function.update f.interests a (some (existing ++ [aoi])) } :=
      .single (.insert hexisting hmem)
    split
    · exact ⟨hinsert, by simp⟩
    · rename_i h hfind
      have hsend : Moves input { f with
          interests := Function.update f.interests a (some (existing ++ [aoi])) } _ :=
        .send (Function.update_self _ _ _) (List.mem_append_right _ (List.mem_singleton_self aoi))
          (ResourceMap.tryGet_of_find hfind)
      refine ⟨hinsert.tail hsend, ?_⟩
      show Function.update f.interests a _ a ≠ none
      simp

theorem moves_foldl_addKnown {input : Input} {a : ReadAuthorisation}
    (hknown : f.interests a ≠ none) (aois : List AreaOfInterest)
    (hmem : ∀ aoi ∈ aois, ∃ interests aois, input = .addInterests interests ∧
      (a, aois) ∈ interests ∧ aoi ∈ aois) :
    ReflTransGen (Moves input) f (aois.foldl (addKnown a) f) := by
  induction aois generalizing f with
  | nil => exact .refl
  | cons aoi aois ih =>
      obtain ⟨hfirst, hknown'⟩ := moves_addKnown hknown (hmem aoi List.mem_cons_self)
      exact hfirst.trans (ih hknown' fun x hx => hmem x (List.mem_cons_of_mem _ hx))

theorem moves_addInterests {interests rest : List (ReadAuthorisation × List AreaOfInterest)}
    (hrest : rest ⊆ interests) :
    ReflTransGen (Moves (.addInterests interests)) f (f.addInterests rest) := by
  induction rest generalizing f with
  | nil => exact .refl
  | cons e rest ih =>
      obtain ⟨a, aois⟩ := e
      obtain ⟨hmem, hrest⟩ := List.cons_subset.mp hrest
      cases hknown : f.interests a with
      | some existing =>
          have hstep : f.addInterests ((a, aois) :: rest) =
              (aois.foldl (addKnown a) f).addInterests rest := by
            simp [addInterests, hknown]
          rw [hstep]
          refine (moves_foldl_addKnown (by simp [hknown]) aois fun x hx => ?_).trans (ih hrest)
          exact ⟨interests, aois, rfl, hmem, hx⟩
      | none =>
          have hstep : f.addInterests ((a, aois) :: rest) =
              (({ f with interests := Function.update f.interests a (some aois) }).yield
                [.submitAuthorisation a]).addInterests rest := by
            simp [addInterests, hknown]
          rw [hstep]
          exact (ReflTransGen.single (.submit hknown ⟨interests, rfl, hmem⟩)).trans (ih hrest)

theorem moves_foldl_send {input : Input} {a : ReadAuthorisation} {aois : List AreaOfInterest}
    {h : Nat} (hknown : f.interests a = some aois)
    (hbound : f.caps.ours.tryGet h = some a.readCap) {rest : List AreaOfInterest}
    (hrest : rest ⊆ aois) :
    ReflTransGen (Moves input) f
      (rest.foldl (fun f aoi => f.bindAndSendOurs a.namespaceId h aoi) f) := by
  induction rest generalizing f with
  | nil => exact .refl
  | cons aoi rest ih =>
      obtain ⟨hmem, hrest⟩ := List.cons_subset.mp hrest
      exact (ReflTransGen.single (.send hknown hmem hbound)).trans
        (ih (f := f.bindAndSendOurs a.namespaceId h aoi) hknown hbound hrest)

theorem moves_onPaiIntersection {input : Input} {a : ReadAuthorisation} {handle : Nat}
    (h : f.onPaiIntersection a handle = .ok f') : ReflTransGen (Moves input) f f' := by
  unfold onPaiIntersection at h
  split at h
  · cases h
  · rename_i aois haois
    rcases ResourceMap.bindIfNew_cases f.caps.ours a.readCap with ⟨k, hk, hold⟩ | hnew
    · have hbind : f.bindCapability a handle = (k, f) := by
        simp [IntersectionFinder.bindCapability, Capabilities.bindOurs, hold]
      rw [hbind] at h
      obtain rfl := Except.ok.inj h
      exact moves_foldl_send haois hk (List.Subset.refl _)
    · have hfind : f.caps.ours.find a.readCap = none := by
        cases hf : f.caps.ours.find a.readCap with
        | none => rfl
        | some k => simp [ResourceMap.bindIfNew, hf] at hnew
      set f₁ := ({ f with
        caps := { f.caps with ours := (f.caps.ours.bind a.readCap).2 } }).yield
          [.signAndSendCapability handle a.readCap] with hf₁
      have hbind : f.bindCapability a handle = (f.caps.ours.nextHandle, f₁) := by
        simp [IntersectionFinder.bindCapability, Capabilities.bindOurs, hnew, hf₁]
      rw [hbind] at h
      obtain rfl := Except.ok.inj h
      have hmove : Moves input f f₁ := .bindCapability (by simp [haois]) hfind
      have hbound : f₁.caps.ours.tryGet f.caps.ours.nextHandle = some a.readCap :=
        ResourceMap.tryGet_bind_self
      exact (ReflTransGen.single hmove).trans
        (moves_foldl_send (f := f₁) haois hbound (List.Subset.refl _))

end IntersectionFinder

/-! ## What a finder of an honest session keeps -/

namespace IntersectionFinder

/-- The capabilities whose signing was requested. -/
def requested (outputs : List Output) : List ReadCapability :=
  outputs.filterMap fun
    | .signAndSendCapability _ capability => some capability
    | _ => none

variable [Meadowcap]

/-- The authorisation and its area of interest are those of an honest session. -/
def HonestInterest (secrets : SecretStorage) (a : ReadAuthorisation) (aois : List AreaOfInterest) :
    Prop :=
  secrets.Holds a.readCap.receiver ∧ ∀ x ∈ aois, a.readCap.grantedArea.IncludesArea x.area

/-- The area of interest was bound for the message. -/
def StandsFor (caps : ResourceMap ReadCapability) (m : AreaOfInterest × Nat) (info : AoiInfo) :
    Prop :=
  info.aoi = m.1 ∧ ∃ cap, caps.tryGet m.2 = some cap ∧ info.namespaceId = cap.grantedNamespace ∧
    cap.grantedArea.IncludesArea m.1.area

variable [WillowDataModel]

/-- The finder has bound `ours` for the messages it has sent, and `bound` for the peer. -/
structure Keeps (secrets : SecretStorage) (f : IntersectionFinder) (ours bound : List AoiInfo) :
    Prop where
  requested : f.caps.ours.Mirrors (requested f.outputs)
  held : ∀ cap ∈ IntersectionFinder.requested f.outputs, secrets.Holds cap.receiver
  messages : List.Forall₂ (StandsFor f.caps.ours) (messages f.outputs) ours
  enumerates : f.Enumerates ours bound
  interests : ∀ a aois, f.interests a = some aois → HonestInterest secrets a aois
  submitted : ∀ a, .submitAuthorisation a ∈ f.outputs → f.interests a ≠ none

variable {secrets : SecretStorage} {f f' : IntersectionFinder} {ours bound : List AoiInfo}

/-- The finder has gone on, without binding anything for the peer. -/
structure Continues (secrets : SecretStorage) (f f' : IntersectionFinder)
    (ours bound : List AoiInfo) : Prop where
  outputs : f.outputs <+: f'.outputs
  challenge : f'.caps.challenge = f.caps.challenge
  theirs : f'.caps.theirs = f.caps.theirs
  known : ∀ a, f.interests a ≠ none → f'.interests a ≠ none
  keeps : ∃ new, Keeps secrets f' (ours ++ new) bound

omit [WillowDataModel] in
/-- Interests are honest after those of one authorisation were set. -/
theorem honest_update (h : ∀ a aois, f.interests a = some aois → HonestInterest secrets a aois)
    {a : ReadAuthorisation} {aois : List AreaOfInterest} (ha : HonestInterest secrets a aois) :
    ∀ b bois, Function.update f.interests a (some aois) b = some bois →
      HonestInterest secrets b bois := by
  intro b bois hb
  rcases update_eq_some.mp hb with ⟨rfl, rfl⟩ | ⟨-, hb⟩
  · exact ha
  · exact h b bois hb

omit [Meadowcap] [WillowDataModel] in
theorem known_update {a b : ReadAuthorisation} {aois : List AreaOfInterest}
    (h : f.interests b ≠ none) : Function.update f.interests a (some aois) b ≠ none := by
  by_cases hba : b = a
  · subst hba
    simp
  · rwa [Function.update_of_ne hba]

/-- **One move** of an honest session. -/
theorem Keeps.moves (hcomm : ∀ a b : AreaOfInterest,
    WillowDataModel.intersection a b = WillowDataModel.intersection b a)
    (h : Keeps secrets f ours bound) {input : Input}
    (hinput : ∀ interests, input = .addInterests interests → ∀ e ∈ interests,
      HonestInterest secrets e.1 e.2)
    (hmove : Moves input f f') : Continues secrets f f' ours bound := by
  cases hmove with
  | @submit a aois hunknown hmem =>
      -- nothing is bound yet: the authorisation is only submitted
      obtain ⟨interests, heq, hmem⟩ := hmem
      refine ⟨List.prefix_append _ _, rfl, rfl, fun b hb => known_update hb, [], ?_⟩
      rw [List.append_nil]
      refine ⟨?_, ?_, ?_, h.enumerates.congr rfl ?_, ?_, ?_⟩
      · show f.caps.ours.Mirrors (IntersectionFinder.requested (f.outputs ++ _))
        simpa [IntersectionFinder.requested] using h.requested
      · show ∀ cap ∈ IntersectionFinder.requested (f.outputs ++ _), _
        simpa [IntersectionFinder.requested] using h.held
      · show List.Forall₂ (StandsFor f.caps.ours) (IntersectionFinder.messages (f.outputs ++ _)) _
        simpa [IntersectionFinder.messages] using h.messages
      · show found (f.outputs ++ _) = _
        simp [found]
      · exact honest_update h.interests (hinput interests heq _ hmem)
      · intro b hb
        rcases List.mem_append.mp hb with hb | hb
        · exact known_update (h.submitted b hb)
        · obtain rfl := Output.submitAuthorisation.inj (List.mem_singleton.mp hb)
          show Function.update f.interests b _ b ≠ none
          simp
  | @insert a existing aoi hknown hmem =>
      -- the interests grow, and nothing is put out
      obtain ⟨interests, aois, heq, hmem, haoi⟩ := hmem
      refine ⟨List.prefix_refl _, rfl, rfl, fun b hb => known_update hb, [], ?_⟩
      rw [List.append_nil]
      refine ⟨h.requested, h.held, h.messages, h.enumerates.congr rfl rfl, ?_, ?_⟩
      · refine honest_update h.interests ⟨(h.interests a existing hknown).1, fun x hx => ?_⟩
        rcases List.mem_append.mp hx with hx | hx
        · exact (h.interests a existing hknown).2 x hx
        · obtain rfl := List.mem_singleton.mp hx
          exact (hinput interests heq _ hmem).2 x haoi
      · exact fun b hb => known_update (h.submitted b hb)
  | @send a aois aoi k hknown hmem hbound =>
      -- one area of interest is bound, and sent under the handle of its capability
      obtain ⟨hcaps, -, -, hmessages, hrequests⟩ :=
        announces_bindAndSendOurs f a.namespaceId k aoi
      have hsame : IntersectionFinder.requested (f.bindAndSendOurs a.namespaceId k aoi).outputs =
          IntersectionFinder.requested f.outputs := by
        show IntersectionFinder.requested ((f.outputs ++ List.map _ _) ++ _) = _
        simp [IntersectionFinder.requested]
      refine ⟨⟨_, (List.append_assoc _ _ _).symm⟩, rfl, rfl, fun b hb => hb,
        [⟨aoi, a.namespaceId⟩], ?_⟩
      refine ⟨?_, ?_, ?_, h.enumerates.bindAndSendOurs hcomm _ _ _, h.interests, ?_⟩
      · rw [hsame]
        exact h.requested
      · rw [hsame]
        exact h.held
      · rw [hmessages]
        refine List.rel_append h.messages (.cons ⟨rfl, a.readCap, hbound, rfl, ?_⟩ .nil)
        exact (h.interests a aois hknown).2 aoi hmem
      · intro b hb
        refine h.submitted b (List.mem_of_mem_filter (p := isRequest) ?_)
        rw [← hrequests]
        exact List.mem_filter.mpr ⟨hb, rfl⟩
  | @bindCapability a handle hknown hnew =>
      obtain ⟨aois, haois⟩ := Option.ne_none_iff_exists'.mp hknown
      refine ⟨List.prefix_append _ _, rfl, rfl, fun b hb => hb, [], ?_⟩
      rw [List.append_nil]
      have hrequested : IntersectionFinder.requested
          (f.outputs ++ [.signAndSendCapability handle a.readCap]) =
          IntersectionFinder.requested f.outputs ++ [a.readCap] := by
        simp [IntersectionFinder.requested]
      refine ⟨?_, ?_, ?_, h.enumerates.congr rfl ?_, h.interests, ?_⟩
      · show (f.caps.ours.bind a.readCap).2.Mirrors (IntersectionFinder.requested (f.outputs ++ _))
        rw [hrequested]
        exact h.requested.bind
      · show ∀ cap ∈ IntersectionFinder.requested (f.outputs ++ _), _
        rw [hrequested]
        intro cap hcap
        rcases List.mem_append.mp hcap with hcap | hcap
        · exact h.held cap hcap
        · rw [List.mem_singleton.mp hcap]
          exact (h.interests a aois haois).1
      · show List.Forall₂ _ (IntersectionFinder.messages (f.outputs ++ _)) _
        have hmessages : IntersectionFinder.messages
            (f.outputs ++ [.signAndSendCapability handle a.readCap]) =
            IntersectionFinder.messages f.outputs := by
          simp [IntersectionFinder.messages]
        rw [hmessages]
        refine h.messages.imp ?_
        rintro m info ⟨haoi, cap, hcap, hrest⟩
        refine ⟨haoi, cap, ?_, hrest⟩
        -- the capability takes the next handle, so what was sent keeps its own
        have hlt : m.2 < (IntersectionFinder.requested f.outputs).length := by
          rw [h.requested.tryGet] at hcap
          exact (List.getElem?_eq_some_iff.mp hcap).1
        rw [← h.requested.nextHandle] at hlt
        exact (ResourceMap.tryGet_bind_of_ne hlt.ne).trans hcap
      · show found (f.outputs ++ _) = _
        simp [found]
      · intro b hb
        rcases List.mem_append.mp hb with hb | hb
        · exact h.submitted b hb
        · cases List.mem_singleton.mp hb

/-- **Interests or an intersection** of an honest session. -/
theorem Keeps.continues (hcomm : ∀ a b : AreaOfInterest,
    WillowDataModel.intersection a b = WillowDataModel.intersection b a)
    (h : Keeps secrets f ours bound) {input : Input}
    (hinput : ∀ interests, input = .addInterests interests → ∀ e ∈ interests,
      HonestInterest secrets e.1 e.2)
    (hmoves : Relation.ReflTransGen (Moves input) f f') : Continues secrets f f' ours bound := by
  induction hmoves with
  | refl =>
      exact ⟨List.prefix_refl _, rfl, rfl, fun _ hb => hb, [], (List.append_nil ours).symm ▸ h⟩
  | tail _ hmove ih =>
      obtain ⟨new, hkeeps⟩ := ih.keeps
      obtain ⟨houtputs, hchallenge, htheirs, hknown, new', hkeeps'⟩ :=
        hkeeps.moves hcomm hinput hmove
      refine ⟨ih.outputs.trans houtputs, hchallenge.trans ih.challenge, htheirs.trans ih.theirs,
        fun b hb => hknown b (ih.known b hb), new ++ new', ?_⟩
      rw [← List.append_assoc]
      exact hkeeps'

/-- **An area of interest** of the peer. -/
theorem Keeps.bindTheirs (h : Keeps secrets f ours bound) (ns : NamespaceId)
    (aoi : AreaOfInterest) :
    Keeps secrets (f.bindValidated .theirs ns aoi) ours (bound ++ [⟨aoi, ns⟩]) := by
  have houtputs : ∃ is : List AoiIntersection, (f.bindValidated .theirs ns aoi).outputs =
      f.outputs ++ is.map .aoiIntersection := ⟨_, rfl⟩
  obtain ⟨is, hout⟩ := houtputs
  have hrequested : IntersectionFinder.requested (f.bindValidated .theirs ns aoi).outputs =
      IntersectionFinder.requested f.outputs := by
    rw [hout]
    simp [IntersectionFinder.requested]
  have hmessages : IntersectionFinder.messages (f.bindValidated .theirs ns aoi).outputs =
      IntersectionFinder.messages f.outputs := by
    rw [hout]
    simp [IntersectionFinder.messages]
  refine ⟨?_, ?_, ?_, h.enumerates.bindTheirs ns aoi, h.interests, fun a ha => ?_⟩
  · rw [hrequested]
    exact h.requested
  · rw [hrequested]
    exact h.held
  · rw [hmessages]
    exact h.messages
  · rw [hout] at ha
    exact h.submitted a (by simpa using ha)

end IntersectionFinder

/-! ## The system -/

/-- A session, as far as its `IntersectionFinder` and the two channels go. -/
structure AoiPeer where
  secrets : SecretStorage
  finder : IntersectionFinder
  inbox : List IntersectionFinder.Input := []
  capability : List SetupBindReadCapability := []
  areaOfInterest : List (AreaOfInterest × Nat) := []
  failed : Option Error := none

namespace AoiPeer

/-- The body of `intersection_loop`. Authorisations go to the `PaiFinder` and
intersections to the reconciler, which have no part here. -/
def onOutput (s : AoiPeer) (output : IntersectionFinder.Output) : AoiPeer :=
  if s.failed.isSome then s
  else
    match output with
    | .sendMessage areaOfInterest authorisation =>
        { s with areaOfInterest := s.areaOfInterest ++ [(areaOfInterest, authorisation)] }
    | .submitAuthorisation _ => s
    | .aoiIntersection _ => s
    | .signAndSendCapability handle capability =>
        match s.finder.caps.signCapability s.secrets handle capability with
        | .ok message => { s with capability := s.capability ++ [message] }
        | .error e => { s with failed := some e }

/-- One iteration of `IntersectionFinder::run`, and the outputs it leads to. -/
def takeInput [WillowDataModel] (s : AoiPeer) : Option AoiPeer :=
  match s.inbox with
  | [] => none
  | input :: rest =>
      match s.finder.onInput input with
      | .error e => some { s with inbox := rest, failed := some e }
      | .ok finder =>
          some ((finder.outputs.drop s.finder.outputs.length).foldl onOutput
            { s with inbox := rest, finder := finder })

/-- Send into `intersection_inbox`. -/
def push (s : AoiPeer) (input : IntersectionFinder.Input) : AoiPeer :=
  { s with inbox := s.inbox ++ [input] }

/-- The body of `caps_recv_loop`. -/
def onReadCapability [Meadowcap] (s : AoiPeer) (message : SetupBindReadCapability) : AoiPeer :=
  match s.finder.caps.validateAndBindTheirs message.capability message.signature with
  | .ok caps => { s with finder := { s.finder with caps := caps } }
  | .error e => { s with failed := some e }

/-- The body of `aoi_recv_loop`; `none` while `get_theirs_eventually` waits. -/
def onAreaOfInterest (s : AoiPeer) (message : AreaOfInterest × Nat) : Option AoiPeer :=
  match s.finder.caps.theirs.tryGet message.2 with
  | none => none
  | some cap =>
      if cap.grantedArea.IncludesArea message.1.area then
        some (s.push (.receivedValidatedAoi cap.grantedNamespace message.1))
      else some { s with failed := some .unauthorisedArea }

end AoiPeer

/-- Two sessions, and how many messages of each channel each one has received. -/
structure AoiExchange where
  peer : Role → AoiPeer
  receivedCapability : Role → Nat := fun _ => 0
  receivedAoi : Role → Nat := fun _ => 0

namespace AoiExchange

/-- What can happen. -/
inductive Action where
  | addInterests (p : Role) (interests : List (ReadAuthorisation × List AreaOfInterest))
  | paiIntersection (p : Role) (authorisation : ReadAuthorisation) (handle : Nat)
  | deliverCapability (p : Role)
  | deliverAoi (p : Role)
  | takeInput (p : Role)
  deriving DecidableEq

/-- The session of an action. -/
def Action.peer : Action → Role
  | .addInterests p _ => p
  | .paiIntersection p _ _ => p
  | .deliverCapability p => p
  | .deliverAoi p => p
  | .takeInput p => p

/-- Change one session. -/
def set (s : AoiExchange) (p : Role) (peer : AoiPeer) : AoiExchange :=
  { s with peer := Function.update s.peer p peer }

variable [Meadowcap] [WillowDataModel]

/-- One step; `none` when the action is not possible. The `PaiFinder` finds
intersections for authorisations that were submitted to it. -/
def step (s : AoiExchange) (a : Action) : Option AoiExchange :=
  if (s.peer a.peer).failed.isSome then none
  else
    match a with
    | .addInterests p interests => some (s.set p ((s.peer p).push (.addInterests interests)))
    | .paiIntersection p authorisation handle =>
        if .submitAuthorisation authorisation ∈ (s.peer p).finder.outputs then
          some (s.set p ((s.peer p).push (.paiIntersection authorisation handle)))
        else none
    | .deliverCapability p =>
        match (s.peer p.other).capability[s.receivedCapability p]? with
        | none => none
        | some message => some { s.set p ((s.peer p).onReadCapability message) with
            receivedCapability :=
              Function.update s.receivedCapability p (s.receivedCapability p + 1) }
    | .deliverAoi p =>
        match (s.peer p.other).areaOfInterest[s.receivedAoi p]? with
        | none => none
        | some message =>
            match (s.peer p).onAreaOfInterest message with
            | none => none
            | some peer => some { s.set p peer with
                receivedAoi := Function.update s.receivedAoi p (s.receivedAoi p + 1) }
    | .takeInput p =>
        match (s.peer p).takeInput with
        | none => none
        | some peer => some (s.set p peer)

/-- What a step does, action by action, and when it is possible. -/
inductive Step (s : AoiExchange) : Action → AoiExchange → Prop
  | addInterests (p : Role) (interests : List (ReadAuthorisation × List AreaOfInterest))
      (halive : (s.peer p).failed = none) :
      Step s (.addInterests p interests) (s.set p ((s.peer p).push (.addInterests interests)))
  | paiIntersection (p : Role) (authorisation : ReadAuthorisation) (handle : Nat)
      (halive : (s.peer p).failed = none)
      (hsubmitted : .submitAuthorisation authorisation ∈ (s.peer p).finder.outputs) :
      Step s (.paiIntersection p authorisation handle)
        (s.set p ((s.peer p).push (.paiIntersection authorisation handle)))
  | deliverCapability (p : Role) (message : SetupBindReadCapability)
      (halive : (s.peer p).failed = none)
      (hmessage : (s.peer p.other).capability[s.receivedCapability p]? = some message) :
      Step s (.deliverCapability p) { s.set p ((s.peer p).onReadCapability message) with
        receivedCapability :=
          Function.update s.receivedCapability p (s.receivedCapability p + 1) }
  | deliverAoi (p : Role) (message : AreaOfInterest × Nat) (peer : AoiPeer)
      (halive : (s.peer p).failed = none)
      (hmessage : (s.peer p.other).areaOfInterest[s.receivedAoi p]? = some message)
      (hpeer : (s.peer p).onAreaOfInterest message = some peer) :
      Step s (.deliverAoi p) { s.set p peer with
        receivedAoi := Function.update s.receivedAoi p (s.receivedAoi p + 1) }
  | takeInput (p : Role) (peer : AoiPeer) (halive : (s.peer p).failed = none)
      (hpeer : (s.peer p).takeInput = some peer) : Step s (.takeInput p) (s.set p peer)

/-- A step of the two finders is one of these. -/
theorem step_sound {s s' : AoiExchange} {a : Action} (h : s.step a = some s') :
    Step s a s' := by
  unfold step at h
  split at h
  · cases h
  · rename_i hfailed
    have halive : (s.peer a.peer).failed = none := Option.not_isSome_iff_eq_none.mp hfailed
    cases a with
    | addInterests p interests =>
        obtain rfl := Option.some.inj h
        exact .addInterests p interests halive
    | paiIntersection p authorisation handle =>
        dsimp only at h
        split at h
        · rename_i hsubmitted
          obtain rfl := Option.some.inj h
          exact .paiIntersection p authorisation handle halive hsubmitted
        · cases h
    | deliverCapability p =>
        dsimp only at h
        split at h
        · cases h
        · rename_i message hmessage
          obtain rfl := Option.some.inj h
          exact .deliverCapability p message halive hmessage
    | deliverAoi p =>
        dsimp only at h
        split at h
        · cases h
        · rename_i message hmessage
          split at h
          · cases h
          · rename_i peer hpeer
            obtain rfl := Option.some.inj h
            exact .deliverAoi p message peer halive hmessage hpeer
    | takeInput p =>
        dsimp only at h
        split at h
        · cases h
        · rename_i peer hpeer
          obtain rfl := Option.some.inj h
          exact .takeInput p peer halive hpeer

/-- Two sessions that have revealed their nonces to each other. -/
def start (nonce : Role → AccessChallenge) (secrets : Role → SecretStorage) : AoiExchange where
  peer p :=
    { secrets := secrets p
      finder := { caps :=
        { challenge := .revealed (sessionChallenge nonce p) (sessionChallenge nonce p.other) } } }

/-- No message and no input is in flight. -/
def Quiet (s : AoiExchange) : Prop :=
  ∀ p, (s.peer p).inbox = [] ∧ s.receivedCapability p = (s.peer p.other).capability.length ∧
    s.receivedAoi p = (s.peer p.other).areaOfInterest.length

/-- An honest session has interests for read capabilities of users whose keys it has,
in the areas that these grant. -/
def Honest (s : AoiExchange) : Action → Prop
  | .addInterests p interests => ∀ e ∈ interests, (s.peer p).secrets.Holds e.1.readCap.receiver ∧
      ∀ x ∈ e.2, e.1.readCap.grantedArea.IncludesArea x.area
  | .paiIntersection _ _ _ => True
  | .deliverCapability _ => True
  | .deliverAoi _ => True
  | .takeInput _ => True

/-! ## The invariant -/

open IntersectionFinder

/-- The validated areas of interest in an inbox. -/
def validated (inbox : List Input) : List AoiInfo :=
  inbox.filterMap fun
    | .receivedValidatedAoi namespaceId aoi => some ⟨aoi, namespaceId⟩
    | _ => none

/-- An input that an honest session gets. -/
def HonestInput (s : AoiPeer) : Input → Prop
  | .addInterests interests => ∀ e ∈ interests, HonestInterest s.secrets e.1 e.2
  | .paiIntersection a _ => s.finder.interests a ≠ none
  | .receivedValidatedAoi _ _ => True

/-- What a session has done itself. -/
structure Own (nonce : Role → AccessChallenge) (p : Role) (s : AoiPeer)
    (ours bound : List AoiInfo) : Prop where
  alive : s.failed = none
  challenge : s.finder.caps.challenge =
    .revealed (sessionChallenge nonce p) (sessionChallenge nonce p.other)
  finder : Keeps s.secrets s.finder ours bound
  capability : s.capability.map (·.capability) = requested s.finder.outputs
  signed : ∀ m ∈ s.capability, Meadowcap.isPublicKey m.capability.receiver = true ∧
    Meadowcap.verify m.capability.receiver (sessionChallenge nonce p) m.signature = true
  areaOfInterest : s.areaOfInterest = messages s.finder.outputs
  inbox : ∀ input ∈ s.inbox, HonestInput s input

/-- What a session has of the other one: `caps` of its capabilities and `aois` of its
areas of interest were delivered. -/
structure Link (sender receiver : AoiPeer) (caps aois : Nat) (ours bound : List AoiInfo) :
    Prop where
  caps_le : caps ≤ sender.capability.length
  theirs : receiver.finder.caps.theirs.Mirrors ((sender.capability.take caps).map (·.capability))
  aois_le : aois ≤ ours.length
  aois : bound ++ validated receiver.inbox = ours.take aois

/-- **The invariant.** -/
def Inv (nonce : Role → AccessChallenge) (s : AoiExchange) : Prop :=
  ∃ ours bound : Role → List AoiInfo, ∀ p,
    Own nonce p (s.peer p) (ours p) (bound p) ∧
      Link (s.peer p.other) (s.peer p) (s.receivedCapability p) (s.receivedAoi p) (ours p.other)
        (bound p)

theorem inv_start (nonce : Role → AccessChallenge) (secrets : Role → SecretStorage) :
    Inv nonce (start nonce secrets) := by
  refine ⟨fun _ => [], fun _ => [], fun p => ⟨⟨rfl, rfl, ⟨?_, ?_, .nil, ⟨?_, ?_, ?_, ?_⟩, ?_, ?_⟩,
    rfl, ?_, rfl, ?_⟩, ⟨le_refl _, ?_, le_refl _, rfl⟩⟩⟩
  · exact ResourceMap.mirrors_empty
  · intro cap hcap
    cases hcap
  · exact ResourceMap.mirrors_empty
  · exact ResourceMap.mirrors_empty
  · exact List.nodup_nil
  · intro i
    simp [start, found, Intersects]
  · intro a aois h
    simp [start] at h
  · intro a h
    cases h
  · intro m hm
    cases hm
  · intro input hinput
    cases hinput
  · exact ResourceMap.mirrors_empty

variable {nonce : Role → AccessChallenge} {s s' : AoiExchange} {p : Role}

omit [Meadowcap] [WillowDataModel] in
/-- The sender has sent more. -/
theorem Link.sender_mono {sender sender' receiver : AoiPeer} {caps aois : Nat}
    {ours ours' bound : List AoiInfo} (h : Link sender receiver caps aois ours bound)
    (hcaps : sender.capability <+: sender'.capability) (hours : ours <+: ours') :
    Link sender' receiver caps aois ours' bound := by
  obtain ⟨more, hmore⟩ := hcaps
  obtain ⟨new, rfl⟩ := hours
  refine ⟨h.caps_le.trans ?_, ?_, h.aois_le.trans (by simp), ?_⟩
  · rw [← hmore]
    simp
  · rw [← hmore, List.take_append_of_le_length h.caps_le]
    exact h.theirs
  · rw [List.take_append_of_le_length h.aois_le]
    exact h.aois

/-- One session has changed. -/
theorem Inv.of_own {ours bound : Role → List AoiInfo}
    (h : ∀ p, Own nonce p (s.peer p) (ours p) (bound p) ∧
      Link (s.peer p.other) (s.peer p) (s.receivedCapability p) (s.receivedAoi p) (ours p.other)
        (bound p))
    {peer : AoiPeer} {ours' bound' : List AoiInfo} (hpeer : s'.peer = Function.update s.peer p peer)
    (hcaps : s'.receivedCapability p.other = s.receivedCapability p.other)
    (haois : s'.receivedAoi p.other = s.receivedAoi p.other)
    (hown : Own nonce p peer ours' bound')
    (hlink : Link (s.peer p.other) peer (s'.receivedCapability p) (s'.receivedAoi p)
      (ours p.other) bound')
    (hsent : (s.peer p).capability <+: peer.capability) (hours : ours p <+: ours') :
    Inv nonce s' := by
  have hself : s'.peer p = peer := by rw [hpeer, Function.update_self]
  have hother : s'.peer p.other = s.peer p.other := by
    rw [hpeer, Function.update_of_ne p.other_ne]
  refine ⟨Function.update ours p ours', Function.update bound p bound', Role.forall_of p ?_ ?_⟩
  · rw [hself, hother, Function.update_self, Function.update_self,
      Function.update_of_ne p.other_ne]
    exact ⟨hown, hlink⟩
  · obtain ⟨hown', hlink'⟩ := h p.other
    rw [Role.other_other] at hlink' ⊢
    rw [hself, hother, Function.update_self, Function.update_of_ne p.other_ne,
      Function.update_of_ne p.other_ne, hcaps, haois]
    exact ⟨hown', hlink'.sender_mono hsent hours⟩

/-! ## Deliveries -/

theorem Own.push {peer : AoiPeer} {ours bound : List AoiInfo} (h : Own nonce p peer ours bound)
    {input : Input} (hinput : HonestInput peer input) :
    Own nonce p (peer.push input) ours bound := by
  refine ⟨h.alive, h.challenge, h.finder, h.capability, h.signed, h.areaOfInterest, ?_⟩
  intro input' hmem
  rcases List.mem_append.mp hmem with hmem | hmem
  · have hold := h.inbox input' hmem
    cases input' <;> exact hold
  · rw [List.mem_singleton.mp hmem]
    cases input <;> exact hinput

omit [Meadowcap] [WillowDataModel] in
theorem Link.push {sender receiver : AoiPeer} {caps aois : Nat} {ours bound : List AoiInfo}
    (h : Link sender receiver caps aois ours bound) {input : Input}
    (hnot : validated [input] = []) : Link sender (receiver.push input) caps aois ours bound := by
  refine ⟨h.caps_le, h.theirs, h.aois_le, ?_⟩
  rw [← h.aois]
  show bound ++ validated (receiver.inbox ++ [input]) = _
  unfold validated at hnot ⊢
  rw [List.filterMap_append, hnot, List.append_nil]

/-- The next capability is valid, and is bound under the handle that it has for its
sender. -/
theorem Inv.deliverCapability (h : Inv nonce s)
    (hstep : step s (.deliverCapability p) = some s') : Inv nonce s' := by
  obtain ⟨ours, bound, h⟩ := h
  obtain ⟨hown, hlink⟩ := h p
  obtain ⟨hown', -⟩ := h p.other
  cases step_sound hstep with
  | deliverCapability _ message halive hmessage =>
      have hlt := (List.getElem?_eq_some_iff.mp hmessage).1
      obtain ⟨hkey, hverify⟩ := hown'.signed message (List.mem_of_getElem? hmessage)
      have hvalid := Capabilities.validateAndBindTheirs_of_verify hown.challenge hkey hverify
      have hpeer : (s.peer p).onReadCapability message = { s.peer p with
          finder := { (s.peer p).finder with caps := { (s.peer p).finder.caps with
            theirs := ((s.peer p).finder.caps.theirs.bind message.capability).2 } } } := by
        simp only [AoiPeer.onReadCapability, hvalid]
      have hnew : Own nonce p ((s.peer p).onReadCapability message) (ours p) (bound p) := by
        rw [hpeer]
        refine ⟨hown.alive, hown.challenge, ?_, hown.capability, hown.signed, hown.areaOfInterest, ?_⟩
        · exact ⟨hown.finder.requested, hown.finder.held, hown.finder.messages,
            hown.finder.enumerates.congr rfl rfl, hown.finder.interests, hown.finder.submitted⟩
        · intro input hinput
          have hold := hown.inbox input hinput
          cases input <;> exact hold
      have hsent : (s.peer p).capability <+: ((s.peer p).onReadCapability message).capability := by
        rw [hpeer]
      refine Inv.of_own h rfl (Function.update_of_ne p.other_ne _ _) rfl hnew ?_ hsent
        (List.prefix_refl _)
      rw [hpeer]
      show Link _ _ (Function.update s.receivedCapability p (s.receivedCapability p + 1) p) _ _ _
      rw [Function.update_self]
      refine ⟨hlt, ?_, hlink.aois_le, hlink.aois⟩
      rw [List.take_add_one, hmessage, Option.toList_some, List.map_append]
      exact hlink.theirs.bind

/-- The next area of interest was bound by its sender in the namespace that the
capability has here, and in its area. -/
theorem Inv.deliverAoi (h : Inv nonce s) (hstep : step s (.deliverAoi p) = some s') :
    Inv nonce s' := by
  obtain ⟨ours, bound, h⟩ := h
  obtain ⟨hown, hlink⟩ := h p
  obtain ⟨hown', -⟩ := h p.other
  cases step_sound hstep with
  | deliverAoi _ message peer halive hmessage hpeer =>
      rw [hown'.areaOfInterest] at hmessage
      obtain ⟨hlt, hget⟩ := List.getElem?_eq_some_iff.mp hmessage
      have hlt' : s.receivedAoi p < (ours p.other).length :=
        hown'.finder.messages.length_eq ▸ hlt
      obtain ⟨haoi, cap, hcap, hns, harea⟩ :=
        (List.forall₂_iff_get.mp hown'.finder.messages).2 _ hlt hlt'
      simp only [List.get_eq_getElem, hget] at haoi hcap hns harea
      unfold AoiPeer.onAreaOfInterest at hpeer
      split at hpeer
      · cases hpeer
      · rename_i cap' hcap'
        -- both sessions have the same capability under the handle
        obtain rfl : cap' = cap := by
          rw [hlink.theirs.tryGet, List.map_take, hown'.capability, List.getElem?_take] at hcap'
          rw [hown'.finder.requested.tryGet] at hcap
          split at hcap'
          · exact Option.some.inj (hcap'.symm.trans hcap)
          · cases hcap'
        rw [if_pos harea] at hpeer
        obtain rfl := Option.some.inj hpeer
        refine Inv.of_own h rfl rfl (Function.update_of_ne p.other_ne _ _)
          (hown.push trivial) ?_ (List.prefix_refl _) (List.prefix_refl _)
        show Link _ _ _ (Function.update s.receivedAoi p (s.receivedAoi p + 1) p) _ _
        rw [Function.update_self]
        have hinfo : (⟨message.1, cap'.grantedNamespace⟩ : AoiInfo) =
            (ours p.other)[s.receivedAoi p] := by
          rw [← haoi, ← hns]
        refine ⟨hlink.caps_le, hlink.theirs, hlt', ?_⟩
        rw [List.take_add_one, List.getElem?_eq_getElem hlt', Option.toList_some, ← hlink.aois,
          List.append_assoc]
        show bound p ++ validated ((s.peer p).inbox ++ [_]) = _
        unfold validated
        rw [List.filterMap_append]
        simp [hinfo]

/-! ## Inputs -/

omit [WillowDataModel] in
/-- The outputs of an honest session are processed. -/
theorem foldl_onOutput {ours theirs : AccessChallenge} (outputs : List Output) (s : AoiPeer)
    (halive : s.failed = none) (hchallenge : s.finder.caps.challenge = .revealed ours theirs)
    (hheld : ∀ cap ∈ requested outputs, s.secrets.Holds cap.receiver) :
    ∃ signed, outputs.foldl AoiPeer.onOutput s = { s with
        capability := s.capability ++ signed
        areaOfInterest := s.areaOfInterest ++ messages outputs } ∧
      signed.map (·.capability) = requested outputs ∧
      ∀ m ∈ signed, Meadowcap.isPublicKey m.capability.receiver = true ∧
        Meadowcap.verify m.capability.receiver ours m.signature = true := by
  induction outputs generalizing s with
  | nil => exact ⟨[], by simp [messages], rfl, by simp⟩
  | cons o outputs ih =>
      rw [List.foldl_cons]
      cases o with
      | sendMessage aoi k =>
          have hone : s.onOutput (.sendMessage aoi k) =
              { s with areaOfInterest := s.areaOfInterest ++ [(aoi, k)] } := by
            simp [AoiPeer.onOutput, halive]
          obtain ⟨signed, heq, hrest⟩ := ih (s.onOutput (.sendMessage aoi k))
            (hone ▸ halive) (hone ▸ hchallenge) (hone ▸ hheld)
          refine ⟨signed, ?_, hrest⟩
          rw [heq, hone]
          simp [messages]
      | submitAuthorisation a =>
          have hone : s.onOutput (.submitAuthorisation a) = s := by
            simp [AoiPeer.onOutput]
          rw [hone]
          exact ih s halive hchallenge hheld
      | aoiIntersection i =>
          have hone : s.onOutput (.aoiIntersection i) = s := by
            simp [AoiPeer.onOutput]
          rw [hone]
          exact ih s halive hchallenge hheld
      | signAndSendCapability k cap =>
          have hcap : s.secrets.Holds cap.receiver := hheld cap (by simp [requested])
          obtain ⟨signature, hsign, hverify⟩ :=
            Capabilities.signCapability_of_holds hchallenge hcap k
          have hone : s.onOutput (.signAndSendCapability k cap) =
              { s with capability := s.capability ++ [⟨cap, k, signature⟩] } := by
            simp [AoiPeer.onOutput, halive, hsign]
          -- the keys of the other capabilities are held as well
          have hheld' : ∀ cap ∈ requested outputs, s.secrets.Holds cap.receiver := by
            intro cap' hcap'
            refine hheld cap' ?_
            unfold requested at hcap' ⊢
            rw [List.filterMap_cons]
            exact List.mem_cons_of_mem _ hcap'
          obtain ⟨signed, heq, hmap, hall⟩ := ih (s.onOutput (.signAndSendCapability k cap))
            (hone ▸ halive) (hone ▸ hchallenge) (hone ▸ hheld')
          refine ⟨⟨cap, k, signature⟩ :: signed, ?_, ?_, ?_⟩
          · rw [heq, hone]
            simp [messages]
          · simpa [requested] using hmap
          · intro m hm
            rcases List.mem_cons.mp hm with rfl | hm
            · exact ⟨hcap.1, hverify⟩
            · exact hall m hm

/-- The finder of an honest session takes an input, without an error. -/
theorem Own.onInput (hcomm : ∀ a b : AreaOfInterest,
    WillowDataModel.intersection a b = WillowDataModel.intersection b a) {peer : AoiPeer}
    {ours bound : List AoiInfo} (h : Own nonce p peer ours bound) {input : Input}
    (hinput : HonestInput peer input) :
    ∃ finder new bound', peer.finder.onInput input = .ok finder ∧
      peer.finder.outputs <+: finder.outputs ∧
      finder.caps.challenge = peer.finder.caps.challenge ∧
      finder.caps.theirs = peer.finder.caps.theirs ∧
      (∀ a, peer.finder.interests a ≠ none → finder.interests a ≠ none) ∧
      Keeps peer.secrets finder (ours ++ new) bound' ∧
      ∀ rest, bound' ++ validated rest = bound ++ validated (input :: rest) := by
  cases input with
  | addInterests interests =>
      have hhonest : ∀ interests', Input.addInterests interests = .addInterests interests' →
          ∀ e ∈ interests', HonestInterest peer.secrets e.1 e.2 :=
        fun _ heq e he => hinput e (Input.addInterests.inj heq ▸ he)
      obtain ⟨houtputs, hchallenge, htheirs, hknown, new, hkeeps⟩ :=
        h.finder.continues hcomm hhonest (moves_addInterests (List.Subset.refl interests))
      exact ⟨_, new, bound, rfl, houtputs, hchallenge, htheirs, hknown, hkeeps, fun _ => rfl⟩
  | paiIntersection a k =>
      obtain ⟨aois, haois⟩ := Option.ne_none_iff_exists'.mp hinput
      have hfinder : ∃ finder, peer.finder.onPaiIntersection a k = .ok finder := by
        simp [IntersectionFinder.onPaiIntersection, haois]
      obtain ⟨finder, hok⟩ := hfinder
      have hhonest : ∀ interests', Input.paiIntersection a k = .addInterests interests' →
          ∀ e ∈ interests', HonestInterest peer.secrets e.1 e.2 := by
        intro _ heq
        cases heq
      obtain ⟨houtputs, hchallenge, htheirs, hknown, new, hkeeps⟩ :=
        h.finder.continues hcomm hhonest (moves_onPaiIntersection hok)
      exact ⟨_, new, bound, hok, houtputs, hchallenge, htheirs, hknown, hkeeps, fun _ => rfl⟩
  | receivedValidatedAoi ns aoi =>
      refine ⟨_, [], bound ++ [⟨aoi, ns⟩], rfl, List.prefix_append _ _, rfl, rfl,
        fun _ ha => ha, ?_, fun rest => ?_⟩
      · rw [List.append_nil]
        exact h.finder.bindTheirs ns aoi
      · rw [List.append_assoc]
        rfl

/-- **An input** of an honest session is processed. -/
theorem Inv.takeInput (hcomm : ∀ a b : AreaOfInterest,
    WillowDataModel.intersection a b = WillowDataModel.intersection b a)
    (h : Inv nonce s) {peer : AoiPeer} (hpeer : (s.peer p).takeInput = some peer) :
    Inv nonce (s.set p peer) := by
  obtain ⟨ours, bound, h⟩ := h
  obtain ⟨hown, hlink⟩ := h p
  cases hinbox : (s.peer p).inbox with
  | nil => simp [AoiPeer.takeInput, hinbox] at hpeer
  | cons input rest =>
      obtain ⟨finder, new, bound', hok, ⟨outputs, houtputs⟩, hchallenge, htheirs, hknown, hkeeps,
        hbound⟩ := hown.onInput hcomm (hown.inbox input (hinbox ▸ List.mem_cons_self))
      have hdrop : finder.outputs.drop (s.peer p).finder.outputs.length = outputs := by
        rw [← houtputs, List.drop_left]
      have hrequested : requested finder.outputs =
          requested (s.peer p).finder.outputs ++ requested outputs := by
        rw [← houtputs, requested, List.filterMap_append]
        rfl
      have hmessages : messages finder.outputs =
          messages (s.peer p).finder.outputs ++ messages outputs := by
        rw [← houtputs, messages, List.filterMap_append]
        rfl
      have hheld : ∀ cap ∈ requested outputs, (s.peer p).secrets.Holds cap.receiver := by
        intro cap hcap
        exact hkeeps.held cap (hrequested ▸ List.mem_append_right _ hcap)
      obtain ⟨signed, hfold, hmap, hsigned⟩ := foldl_onOutput outputs
        { s.peer p with inbox := rest, finder := finder } hown.alive
        (hchallenge.trans hown.challenge) hheld
      simp only [AoiPeer.takeInput, hinbox, hok, hdrop, hfold] at hpeer
      obtain rfl := Option.some.inj hpeer
      refine Inv.of_own h rfl rfl rfl (?_ : Own nonce p _ (ours p ++ new) bound') ?_ ?_
        (List.prefix_append _ _)
      · refine ⟨hown.alive, hchallenge.trans hown.challenge, hkeeps, ?_, ?_, ?_, ?_⟩
        · rw [hrequested, List.map_append, hown.capability, hmap]
        · intro m hm
          rcases List.mem_append.mp hm with hm | hm
          · exact hown.signed m hm
          · exact hsigned m hm
        · rw [hmessages, hown.areaOfInterest]
        · intro input' hinput'
          have hold := hown.inbox input' (hinbox ▸ List.mem_cons_of_mem _ hinput')
          cases input' with
          | addInterests interests => exact hold
          | paiIntersection a k => exact hknown a hold
          | receivedValidatedAoi ns aoi => trivial
      · refine ⟨hlink.caps_le, ?_, hlink.aois_le, ?_⟩
        · rw [show finder.caps.theirs = _ from htheirs]
          exact hlink.theirs
        · refine (hbound rest).trans ?_
          rw [← hinbox]
          exact hlink.aois
      · exact List.prefix_append _ _

/-- **One step** of honest sessions. -/
theorem Inv.step (hcomm : ∀ a b : AreaOfInterest,
    WillowDataModel.intersection a b = WillowDataModel.intersection b a)
    (h : Inv nonce s) {a : Action} (hhonest : Honest s a)
    (hstep : AoiExchange.step s a = some s') : Inv nonce s' := by
  cases step_sound hstep with
  | deliverCapability p message halive hmessage => exact h.deliverCapability hstep
  | deliverAoi p message peer halive hmessage hpeer => exact h.deliverAoi hstep
  | takeInput p peer halive hpeer => exact h.takeInput hcomm hpeer
  | addInterests p interests halive =>
      obtain ⟨ours, bound, h⟩ := h
      obtain ⟨hown, hlink⟩ := h p
      exact Inv.of_own h rfl rfl rfl (hown.push hhonest) (hlink.push rfl) (List.prefix_refl _)
        (List.prefix_refl _)
  | paiIntersection p authorisation handle halive hsubmitted =>
      obtain ⟨ours, bound, h⟩ := h
      obtain ⟨hown, hlink⟩ := h p
      have hknown : HonestInput (s.peer p) (.paiIntersection authorisation handle) :=
        hown.finder.submitted authorisation hsubmitted
      exact Inv.of_own h rfl rfl rfl (hown.push hknown) (hlink.push rfl) (List.prefix_refl _)
        (List.prefix_refl _)

/-- The two areas of interest, one bound by each session, intersect in one namespace. -/
def BoundPair (s : AoiExchange) (p : Role) (i : AoiIntersection) : Prop :=
  ∃ x y, (s.peer p).finder.handles.ourHandles.tryGet i.ourHandle = some x ∧
    (s.peer p.other).finder.handles.ourHandles.tryGet i.theirHandle = some y ∧
    x.namespaceId = i.namespaceId ∧ y.namespaceId = i.namespaceId ∧
    WillowDataModel.intersection x.aoi y.aoi = some i.intersection

/-- When all is delivered and processed, each session has bound for the other one what
that one has bound for itself. -/
theorem Inv.mem_found_of_quiet (h : Inv nonce s) (hquiet : s.Quiet) (p : Role)
    (i : AoiIntersection) : i ∈ found (s.peer p).finder.outputs ↔ s.BoundPair p i := by
  obtain ⟨ours, bound, h⟩ := h
  obtain ⟨hown, hlink⟩ := h p
  obtain ⟨hown', -⟩ := h p.other
  obtain ⟨hinbox, -, haois⟩ := hquiet p
  have hbound : bound p = ours p.other := by
    have hall : s.receivedAoi p = (ours p.other).length := by
      rw [haois, hown'.areaOfInterest, hown'.finder.messages.length_eq]
    have hlist := hlink.aois
    rw [hinbox, hall, List.take_length] at hlist
    simpa [validated] using hlist
  rw [hown.finder.enumerates.mem, hbound]
  unfold Intersects BoundPair
  simp only [hown.finder.enumerates.ourHandles.tryGet, hown'.finder.enumerates.ourHandles.tryGet]

/-- **Agreement on targets.** In every run of two honest sessions, each finder puts out
a handle pair at most once, and when nothing is in flight both have put out the same
intersections, with the handles swapped: those of all pairs of areas of interest
that are bound, in one namespace, and intersect. -/
theorem targets_agree (hcomm : ∀ a b : AreaOfInterest,
    WillowDataModel.intersection a b = WillowDataModel.intersection b a)
    (nonce : Role → AccessChallenge) (secrets : Role → SecretStorage) (s : AoiExchange)
    (hs : Transition.Reachable AoiExchange.step Honest (start nonce secrets) s) :
    (∀ p, ((found (s.peer p).finder.outputs).map AoiIntersection.id).Nodup) ∧
      (s.Quiet → ∀ p i,
        (i ∈ found (s.peer p).finder.outputs ↔ i.mirror ∈ found (s.peer p.other).finder.outputs) ∧
        (i ∈ found (s.peer p).finder.outputs ↔ s.BoundPair p i)) := by
  have hinv : Inv nonce s := hs.invariant (inv_start nonce secrets)
    fun _ _ _ h hhonest hstep => h.step hcomm hhonest hstep
  refine ⟨fun p => ?_, fun hquiet p i => ⟨?_, hinv.mem_found_of_quiet hquiet p i⟩⟩
  · obtain ⟨ours, bound, h⟩ := hinv
    exact (h p).1.finder.enumerates.nodup
  · rw [hinv.mem_found_of_quiet hquiet p i, hinv.mem_found_of_quiet hquiet p.other i.mirror]
    unfold BoundPair
    rw [Role.other_other]
    constructor
    · rintro ⟨x, y, hx, hy, hns, hns', hc⟩
      exact ⟨y, x, hy, hx, hns', hns, (hcomm _ _).trans hc⟩
    · rintro ⟨y, x, hy, hx, hns', hns, hc⟩
      exact ⟨x, y, hx, hy, hns, hns', (hcomm _ _).trans hc⟩

end AoiExchange

/-! ### Two sessions with one interest each -/

namespace AoiExchange

open IrohWillow.Sample IntersectionFinder

/-- Equal areas of interest intersect. -/
@[reducible] def Sample.equalAreas : WillowDataModel where
  greaterButNotPrefixed _ := none
  intersection a b := if a = b then some a else none

attribute [local instance] acceptingSignatures Sample.equalAreas

theorem Sample.equalAreas_comm (a b : AreaOfInterest) :
    WillowDataModel.intersection a b = WillowDataModel.intersection b a := by
  by_cases h : a = b
  · rw [h]
  · simp [WillowDataModel.intersection, h, Ne.symm h]

def Sample.session : AoiExchange :=
  start (fun _ => .ofByte 3) fun _ => ⟨fun _ _ => some (.ofByte 0)⟩

/-- A session announces its interest, and the other one receives it. -/
def Sample.announce (p : Role) : List Action :=
  [.addInterests p [(Announcer.Sample.authorisation, [Announcer.Sample.areaOfInterest])],
    .takeInput p, .paiIntersection p Announcer.Sample.authorisation 0, .takeInput p,
    .deliverCapability p.other, .deliverAoi p.other, .takeInput p.other]

/-- The interest of the samples is that of an honest session. -/
theorem Sample.honest (s : AoiExchange) (p : Role)
    (hsecrets : (s.peer p).secrets = ⟨fun _ _ => some (.ofByte 0)⟩) :
    Honest s (.addInterests p
      [(Announcer.Sample.authorisation, [Announcer.Sample.areaOfInterest])]) := by
  intro e he
  obtain rfl := List.mem_singleton.mp he
  refine ⟨⟨rfl, fun m => ⟨.ofByte 0, ?_, rfl⟩⟩, fun x hx => ?_⟩
  · rw [hsecrets]
  · obtain rfl := List.mem_singleton.mp hx
    exact Area.IncludesArea.refl _

set_option maxRecDepth 4000 in
/-- Both sessions put out the intersection of the two areas of interest. -/
theorem targets_agree_one_interest :
    ∃ s, Transition.Reachable step Honest Sample.session s ∧ s.Quiet ∧
      ∃ i, i ∈ found (s.peer .alfie).finder.outputs ∧
        i.mirror ∈ found (s.peer .betty).finder.outputs := by
  have hrun : ((Transition.run step Sample.session (Sample.announce .alfie ++
      Sample.announce .betty)).map fun s => ((s.peer .alfie).inbox, (s.peer .betty).inbox,
        [s.receivedCapability .alfie, s.receivedCapability .betty, s.receivedAoi .alfie,
          s.receivedAoi .betty, (s.peer .alfie).capability.length,
          (s.peer .betty).capability.length, (s.peer .alfie).areaOfInterest.length,
          (s.peer .betty).areaOfInterest.length], found (s.peer .alfie).finder.outputs)) =
      some ([], [], [1, 1, 1, 1, 1, 1, 1, 1],
        [⟨0, 0, Announcer.Sample.areaOfInterest, namespaceId⟩]) := by rfl
  obtain ⟨s, hs, heq⟩ := Option.map_eq_some_iff.mp hrun
  simp only [Prod.mk.injEq, List.cons.injEq, and_true] at heq
  obtain ⟨hinbox, hinbox', ⟨hca, hcb, haa, hab, hla, hlb, hma, hmb⟩, hfound⟩ := heq
  have hreach : Transition.Reachable step Honest Sample.session s := by
    refine .of_run hs ⟨Sample.honest _ _ rfl, trivial, trivial, trivial, trivial, trivial, trivial,
      Sample.honest _ _ rfl, trivial, trivial, trivial, trivial, trivial, trivial, trivial⟩
  have hquiet : s.Quiet := by
    refine Role.forall_of .alfie ⟨hinbox, ?_, ?_⟩ ⟨hinbox', ?_, ?_⟩
    · exact hca.trans hlb.symm
    · exact haa.trans hmb.symm
    · exact hcb.trans hla.symm
    · exact hab.trans hma.symm
  have hmem : ⟨0, 0, Announcer.Sample.areaOfInterest, namespaceId⟩ ∈
      found (s.peer .alfie).finder.outputs := by simp [hfound]
  refine ⟨s, hreach, hquiet, _, hmem, ?_⟩
  exact ((targets_agree Sample.equalAreas_comm _ _ s hreach).2 hquiet .alfie _).1.mp hmem

end AoiExchange

end IrohWillow
