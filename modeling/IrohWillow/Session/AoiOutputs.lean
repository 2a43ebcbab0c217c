import IrohWillow.Session.AoiFinder

/-!
# What the intersection finder asks of the session

Among its outputs the `IntersectionFinder` submits authorisations to the
`PaiFinder` and has capabilities signed and sent. Binding areas of interest adds
neither; each input is described by the authorisations it submits and the
capability it sends.
-/

namespace IrohWillow.IntersectionFinder

/-- The output is not about areas of interest. -/
def isRequest : Output → Bool
  | .sendMessage _ _ => false
  | .submitAuthorisation _ => true
  | .aoiIntersection _ => false
  | .signAndSendCapability _ _ => true

/-- The finder knows the new authorisations `new`, and has submitted them. -/
structure Adds (f f' : IntersectionFinder) (new : List ReadAuthorisation) : Prop where
  caps : f'.caps = f.caps
  interests : ∀ a, f'.interests a = none ↔ f.interests a = none ∧ a ∉ new
  outputs : ∃ outputs, f'.outputs = f.outputs ++ outputs ∧
    outputs.filter isRequest = new.map .submitAuthorisation
  fresh : ∀ a ∈ new, f.interests a = none

variable {f f' f'' : IntersectionFinder} {new new' : List ReadAuthorisation}

theorem Adds.refl (f : IntersectionFinder) : Adds f f [] :=
  ⟨rfl, by simp, ⟨[], by simp, by simp⟩, by simp⟩

theorem Adds.trans (h : Adds f f' new) (h' : Adds f' f'' new') : Adds f f'' (new ++ new') where
  caps := h'.caps.trans h.caps
  interests a := by
    rw [h'.interests, h.interests, List.mem_append]
    tauto
  outputs := by
    obtain ⟨outputs, heq, hfilter⟩ := h.outputs
    obtain ⟨outputs', heq', hfilter'⟩ := h'.outputs
    refine ⟨outputs ++ outputs', ?_, ?_⟩
    · rw [heq', heq, List.append_assoc]
    · rw [List.filter_append, hfilter, hfilter', List.map_append]
  fresh a ha := by
    rcases List.mem_append.mp ha with ha | ha
    · exact h.fresh a ha
    · exact ((h.interests a).mp (h'.fresh a ha)).1

/-- What adds nothing in each step of a loop adds nothing. -/
theorem Adds.foldl {β : Type} {step : IntersectionFinder → β → IntersectionFinder}
    {P : IntersectionFinder → Prop} (hstep : ∀ f b, P f → Adds f (step f b) [] ∧ P (step f b))
    (l : List β) (hf : P f) : Adds f (l.foldl step f) [] ∧ P (l.foldl step f) := by
  induction l generalizing f with
  | nil => exact ⟨.refl f, hf⟩
  | cons b l ih =>
      obtain ⟨hadds, hP⟩ := hstep f b hf
      obtain ⟨hrest, hPl⟩ := ih hP
      exact ⟨hadds.trans hrest, hPl⟩

variable [WillowDataModel]

theorem adds_bindValidated (f : IntersectionFinder) (scope : Scope) (ns : NamespaceId)
    (aoi : AreaOfInterest) : Adds f (f.bindValidated scope ns aoi) [] := by
  refine ⟨rfl, fun a => ?_, ⟨_, rfl, ?_⟩, by simp⟩
  · show f.interests a = none ↔ _
    simp
  · rw [List.map_nil, List.filter_eq_nil_iff]
    intro o ho
    obtain ⟨i, -, rfl⟩ := List.mem_map.mp ho
    simp [isRequest]

theorem adds_bindAndSendOurs (f : IntersectionFinder) (ns : NamespaceId) (authorisation : Nat)
    (aoi : AreaOfInterest) : Adds f (f.bindAndSendOurs ns authorisation aoi) [] := by
  have hsend : Adds (f.bindValidated .ours ns aoi) (f.bindAndSendOurs ns authorisation aoi) [] := by
    refine ⟨rfl, fun a => ?_, ⟨_, rfl, rfl⟩, by simp⟩
    show (f.bindValidated .ours ns aoi).interests a = none ↔ _
    simp
  exact (adds_bindValidated f .ours ns aoi).trans hsend

theorem adds_addKnown {a : ReadAuthorisation} (hknown : f.interests a ≠ none)
    (aoi : AreaOfInterest) :
    Adds f (addKnown a f aoi) [] ∧ (addKnown a f aoi).interests a ≠ none := by
  simp only [addKnown]
  split
  · exact ⟨.refl f, hknown⟩
  · have hinsert : ∀ aois, Adds f
        { f with interests := Function.update f.interests a (some aois) } [] := by
      refine fun aois => ⟨rfl, fun b => ?_, ⟨[], by simp, by simp⟩, by simp⟩
      by_cases hb : b = a
      · subst hb
        simp [hknown]
      · simp [Function.update_of_ne hb]
    split
    · exact ⟨hinsert _, by simp⟩
    · refine ⟨(hinsert _).trans (adds_bindAndSendOurs _ _ _ _), ?_⟩
      show Function.update f.interests a _ a ≠ none
      simp

/-- **Interests.** Exactly the authorisations that were not known are submitted. -/
theorem adds_addInterests (f : IntersectionFinder)
    (interests : List (ReadAuthorisation × List AreaOfInterest)) :
    ∃ new, Adds f (f.addInterests interests) new ∧
      (∀ a, a ∈ new ↔ f.interests a = none ∧ ∃ aois, (a, aois) ∈ interests) := by
  induction interests generalizing f with
  | nil => exact ⟨[], .refl f, by simp⟩
  | cons x rest ih =>
      obtain ⟨a, aois⟩ := x
      cases hknown : f.interests a with
      | some existing =>
          -- known already: its areas are added one by one
          have hfirst := (Adds.foldl (fun f b hf => adds_addKnown hf b) aois
            (f := f) (P := fun f => f.interests a ≠ none) (by simp [hknown])).1
          obtain ⟨new, hadds, hmem⟩ := ih (aois.foldl (addKnown a) f)
          have heq : f.addInterests ((a, aois) :: rest) =
              (aois.foldl (addKnown a) f).addInterests rest := by
            simp [addInterests, hknown]
          refine ⟨new, heq ▸ hfirst.trans hadds, fun b => ?_⟩
          rw [hmem b, hfirst.interests]
          constructor
          · rintro ⟨⟨hb, -⟩, aois', hrest⟩
            exact ⟨hb, aois', List.mem_cons_of_mem _ hrest⟩
          · rintro ⟨hb, aois', hrest⟩
            refine ⟨⟨hb, by simp⟩, aois', ?_⟩
            rcases List.mem_cons.mp hrest with heq | hrest
            · obtain ⟨rfl, -⟩ := Prod.mk.inj heq
              rw [hknown] at hb
              cases hb
            · exact hrest
      | none =>
          set f₁ := ({ f with
            interests := Function.update f.interests a (some aois) }).yield
              [.submitAuthorisation a] with hf₁
          -- new: it is submitted
          have hfirst : Adds f f₁ [a] := by
            refine ⟨rfl, fun b => ?_, ⟨_, rfl, rfl⟩, by simpa using hknown⟩
            show Function.update f.interests a (some aois) b = none ↔ _
            by_cases hb : b = a
            · subst hb
              simp
            · simp [hb]
          obtain ⟨new, hadds, hmem⟩ := ih f₁
          have heq : f.addInterests ((a, aois) :: rest) = f₁.addInterests rest := by
            simp [addInterests, hknown, hf₁]
          refine ⟨[a] ++ new, heq ▸ hfirst.trans hadds, fun b => ?_⟩
          rw [List.mem_append, List.mem_singleton, hmem b, hfirst.interests, List.mem_singleton]
          constructor
          · rintro (rfl | ⟨⟨hb, -⟩, aois', hrest⟩)
            · exact ⟨hknown, aois, List.mem_cons_self⟩
            · exact ⟨hb, aois', List.mem_cons_of_mem _ hrest⟩
          · rintro ⟨hb, aois', hrest⟩
            by_cases hba : b = a
            · exact .inl hba
            · refine .inr ⟨⟨hb, hba⟩, aois', ?_⟩
              rcases List.mem_cons.mp hrest with heq | hrest
              · exact absurd (Prod.mk.inj heq).1 hba
              · exact hrest

/-- A capability that is not bound yet is bound, and its signing is requested with
the intersection handle. -/
structure Binds (f f' : IntersectionFinder) (handle : Nat) (capability : ReadCapability) :
    Prop where
  fresh : ∀ h, f.caps.ours.tryGet h ≠ some capability
  caps : f'.caps = { f.caps with ours := (f.caps.ours.bind capability).2 }
  interests : ∀ a, f'.interests a = none ↔ f.interests a = none
  outputs : ∃ outputs, f'.outputs = f.outputs ++ outputs ∧
    outputs.filter isRequest = [.signAndSendCapability handle capability]

/-- **An intersection.** The first one for a capability binds it. -/
theorem onPaiIntersection_ok {a : ReadAuthorisation} {handle : Nat}
    (h : f.onPaiIntersection a handle = .ok f') :
    f.interests a ≠ none ∧ ((∃ k, f.caps.ours.tryGet k = some a.readCap) ∧ Adds f f' [] ∨
      Binds f f' handle a.readCap) := by
  unfold onPaiIntersection at h
  split at h
  · cases h
  · rename_i aois haois
    refine ⟨by simp [haois], ?_⟩
    have hfold : ∀ f₁ k, Adds f₁ (aois.foldl (fun f aoi =>
        f.bindAndSendOurs a.namespaceId k aoi) f₁) [] := fun f₁ k =>
      (Adds.foldl (P := fun _ => True)
        (fun f aoi _ => ⟨adds_bindAndSendOurs f a.namespaceId k aoi, trivial⟩) aois trivial).1
    rcases ResourceMap.bindIfNew_cases f.caps.ours a.readCap with ⟨k, hk, hold⟩ | hnew
    · have hbind : f.bindCapability a handle = (k, f) := by
        simp [bindCapability, Capabilities.bindOurs, hold]
      rw [hbind] at h
      obtain rfl := Except.ok.inj h
      exact .inl ⟨⟨k, hk⟩, hfold f k⟩
    · have hbind : f.bindCapability a handle = (f.caps.ours.nextHandle, ({ f with
          caps := { f.caps with ours := (f.caps.ours.bind a.readCap).2 } }).yield
          [.signAndSendCapability handle a.readCap]) := by
        simp [bindCapability, Capabilities.bindOurs, hnew]
      rw [hbind] at h
      obtain rfl := Except.ok.inj h
      refine .inr ?_
      obtain ⟨hcaps, hinterests, ⟨outputs, houtputs, hfilter⟩, -⟩ := hfold
        (({ f with caps := { f.caps with ours := (f.caps.ours.bind a.readCap).2 } }).yield
          [.signAndSendCapability handle a.readCap]) f.caps.ours.nextHandle
      refine ⟨fun k hk => ?_, hcaps, fun b => ?_,
        ⟨[.signAndSendCapability handle a.readCap] ++ outputs, ?_, ?_⟩⟩
      · have hfind := ResourceMap.find_ne_none hk
        unfold ResourceMap.bindIfNew at hnew
        cases hf : f.caps.ours.find a.readCap with
        | none => exact hfind hf
        | some k' => simp [hf] at hnew
      · rw [hinterests]
        simp [yield]
      · rw [houtputs]
        simp [yield]
      · rw [List.filter_append, hfilter]
        rfl

end IrohWillow.IntersectionFinder
