import IrohWillow.Store.InsertEntry

/-!
# Selecting capabilities for a point

`AreaExt::includes_point` of `proto/grouping.rs` widens a point to an area of
one microsecond, `Point::into_area`, and asks for the inclusion of that area.
The end of its time range is `timestamp + 1`, which the greatest `u64` does not
have: there the code panics.

`Area.IncludesPoint` and `CapSelector.isCoveredBy` say what is asked; the
functions here compute it as the source does, and `none` is a panic. Where they
do not panic both agree, and for the selector of an entry they panic at exactly
one timestamp.
-/

namespace IrohWillow

namespace Checked

/-- `timestamp + 1`. Without overflow checks the sum is 0, and `new_closed`
fails in its place (`newClosed_wrapped`). -/
def nextTimestamp (timestamp : Timestamp) : Option Timestamp :=
  if timestamp.val + 1 < 2 ^ 64 then some (timestamp + 1) else none

/-- `Point::into_area`. -/
def intoArea (point : Point) : Option Area :=
  match nextTimestamp point.y with
  | none => none
  | some stop =>
      match Range.newClosed point.y stop with
      | none => none
      | some times => some ⟨.id point.x, point.z, times⟩

/-- `AreaExt::includes_point`. -/
def includesPoint (area : Area) (point : Point) : Option Bool :=
  (intoArea point).map fun other => decide (area.IncludesArea other)

/-- `AreaSelector::is_covered_by`. -/
def areaIsCoveredBy : AreaSelector → Area → Option Bool
  | .widest, _ => some true
  | .containsArea area, other => some (decide (other.IncludesArea area))
  | .containsPoint point, other => includesPoint other point

/-- `CapSelector::is_covered_by`: the area is looked at last. -/
def isCoveredBy (s : CapSelector) (cap : McCapability) : Option Bool :=
  if s.namespaceId = cap.grantedNamespace ∧ s.receiver.includes cap.receiver = true then
    areaIsCoveredBy s.grantedArea cap.grantedArea
  else some false

/-! ## The area of a point -/

theorem val_add_one {t : Timestamp} (ht : t.val + 1 < 2 ^ 64) : (t + 1).val = t.val + 1 := by
  rw [Fin.val_add, Fin.val_one']
  omega

/-- After the greatest timestamp a wrapped sum makes no range either. -/
theorem newClosed_wrapped {t : Timestamp} (ht : ¬ t.val + 1 < 2 ^ 64) :
    Range.newClosed t (t + 1) = none := by
  have hwrap : (t + 1).val = 0 := by
    have hlt := t.isLt
    rw [Fin.val_add, Fin.val_one']
    omega
  refine if_neg fun hlt => ?_
  rw [Fin.lt_def, hwrap] at hlt
  exact absurd hlt (Nat.not_lt_zero _)

theorem intoArea_eq_some {p : Point} (hp : p.y.val + 1 < 2 ^ 64) :
    intoArea p = some ⟨.id p.x, p.z, ⟨p.y, .closed (p.y + 1)⟩⟩ := by
  have hlt : p.y < p.y + 1 := by
    rw [Fin.lt_def, val_add_one hp]
    omega
  have hrange : Range.newClosed p.y (p.y + 1) = some ⟨p.y, .closed (p.y + 1)⟩ := if_pos hlt
  have hnext : nextTimestamp p.y = some (p.y + 1) := if_pos hp
  simp only [intoArea, hnext, hrange]

theorem intoArea_eq_none_iff (p : Point) : intoArea p = none ↔ ¬ p.y.val + 1 < 2 ^ 64 := by
  constructor
  · intro h hp
    rw [intoArea_eq_some hp] at h
    cases h
  · intro hp
    have hnext : nextTimestamp p.y = none := if_neg hp
    simp only [intoArea, hnext]

/-- A time range has the tick of a timestamp exactly when it has the timestamp. -/
theorem includesRange_tick_iff (times : Range Timestamp) {t : Timestamp}
    (ht : t.val + 1 < 2 ^ 64) :
    times.IncludesRange ⟨t, .closed (t + 1)⟩ ↔ times.Includes t := by
  cases hstop : times.stop with
  | opened => simp [Range.IncludesRange, Range.Includes, hstop]
  | closed stop =>
      simp only [Range.IncludesRange, Range.Includes, hstop]
      rw [Fin.le_def (a := t + 1), Fin.lt_def, val_add_one ht, Nat.succ_le_iff]

/-- The area of a point is in an area exactly when the point is. -/
theorem includesArea_tick_iff (area : Area) {p : Point} (hp : p.y.val + 1 < 2 ^ 64) :
    area.IncludesArea ⟨.id p.x, p.z, ⟨p.y, .closed (p.y + 1)⟩⟩ ↔ area.IncludesPoint p := by
  have hsubspace : area.subspace.IncludesSubspace (.id p.x) ↔ area.subspace.Includes p.x := by
    cases area.subspace <;> simp [AreaSubspace.IncludesSubspace, AreaSubspace.Includes]
  exact and_congr hsubspace (and_congr Iff.rfl (includesRange_tick_iff area.times hp))

theorem includesPoint_eq_some (area : Area) {p : Point} (hp : p.y.val + 1 < 2 ^ 64) :
    includesPoint area p = some (decide (area.IncludesPoint p)) := by
  unfold includesPoint
  rw [intoArea_eq_some hp, Option.map_some]
  exact congrArg some (decide_eq_decide.mpr (includesArea_tick_iff area hp))

theorem includesPoint_eq_none_iff (area : Area) (p : Point) :
    includesPoint area p = none ↔ ¬ p.y.val + 1 < 2 ^ 64 := by
  unfold includesPoint
  rw [Option.map_eq_none_iff]
  exact intoArea_eq_none_iff p

/-! ## Selectors -/

theorem areaIsCoveredBy_eq_some {s : AreaSelector} {other : Area} {b : Bool}
    (h : areaIsCoveredBy s other = some b) : s.isCoveredBy other = b := by
  cases s with
  | widest => exact Option.some.inj h
  | containsArea area => exact Option.some.inj h
  | containsPoint point =>
      by_cases hp : point.y.val + 1 < 2 ^ 64
      · have heq := includesPoint_eq_some other hp
        exact Option.some.inj (heq.symm.trans h)
      · have hnone := (includesPoint_eq_none_iff other point).mpr hp
        rw [areaIsCoveredBy, hnone] at h
        cases h

/-- Where `is_covered_by` does not panic it answers as `CapSelector.isCoveredBy`. -/
theorem isCoveredBy_eq_some {s : CapSelector} {cap : McCapability} {b : Bool}
    (h : isCoveredBy s cap = some b) : s.isCoveredBy cap = b := by
  unfold isCoveredBy at h
  unfold CapSelector.isCoveredBy
  split at h
  · rename_i hcap
    rw [areaIsCoveredBy_eq_some h]
    simp [hcap.1, hcap.2]
  · rename_i hcap
    obtain rfl := Option.some.inj h
    by_cases hns : s.namespaceId = cap.grantedNamespace
    · have hreceiver : s.receiver.includes cap.receiver = false :=
        Bool.eq_false_iff.mpr fun hr => hcap ⟨hns, hr⟩
      simp [hreceiver]
    · simp [hns]

/-- The selector of an entry panics at a capability of the namespace and the
receiver, at the greatest timestamp only. -/
theorem isCoveredBy_forEntry_eq_none_iff (e : Entry) (user : UserSelector) (cap : McCapability) :
    isCoveredBy (.forEntry e user) cap = none ↔
      e.namespaceId = cap.grantedNamespace ∧ user.includes cap.receiver = true ∧
        ¬ e.timestamp.val + 1 < 2 ^ 64 := by
  have hpanic := includesPoint_eq_none_iff cap.grantedArea e.point
  unfold isCoveredBy
  split
  · rename_i hcap
    constructor
    · intro h
      exact ⟨hcap.1, hcap.2, hpanic.mp h⟩
    · rintro ⟨-, -, htimestamp⟩
      exact hpanic.mpr htimestamp
  · rename_i hcap
    constructor
    · intro h
      cases h
    · rintro ⟨hns, huser, -⟩
      exact absurd ⟨hns, huser⟩ hcap

/-- The selector of an entry that is not from the last microsecond. -/
theorem isCoveredBy_forEntry {e : Entry} (ht : e.timestamp.val + 1 < 2 ^ 64)
    (user : UserSelector) (cap : McCapability) :
    isCoveredBy (.forEntry e user) cap =
      some (decide (cap.Grants e) && user.includes cap.receiver) := by
  cases h : isCoveredBy (.forEntry e user) cap with
  | none => exact absurd ht ((isCoveredBy_forEntry_eq_none_iff e user cap).mp h).2.2
  | some b =>
      rw [← isCoveredBy_eq_some h]
      -- the point of an entry is in an area exactly when the entry is
      show some (decide (e.namespaceId = cap.grantedNamespace) && user.includes cap.receiver &&
        decide (cap.grantedArea.IncludesEntry e)) = _
      have hgrants : decide (cap.Grants e) = (decide (e.namespaceId = cap.grantedNamespace) &&
          decide (cap.grantedArea.IncludesEntry e)) := by
        rw [← Bool.decide_and]
        exact decide_eq_decide.mpr (and_congr eq_comm Iff.rfl)
      rw [hgrants, Bool.and_right_comm]

end Checked

/-- Points are selected as entries are: `includes_point` answers for the point
of the entry as `includes_entry` does for the entry, and `for_entry` selects
the capabilities of the namespace and the receiver whose area includes it. -/
structure SelectsEntry (area : Area) (e : Entry) (user : UserSelector) (cap : McCapability) :
    Prop where
  includesPoint : Checked.includesPoint area e.point = some (decide (area.IncludesEntry e))
  isCoveredBy : Checked.isCoveredBy (.forEntry e user) cap =
    some (decide (cap.Grants e) && user.includes cap.receiver)

/-- Points are selected as entries are exactly when the timestamp is not the
greatest `u64`. -/
theorem selects_entry_iff (area : Area) (e : Entry) (user : UserSelector) (cap : McCapability) :
    SelectsEntry area e user cap ↔ e.timestamp.val ≠ 2 ^ 64 - 1 := by
  have hlt := e.timestamp.isLt
  constructor
  · intro h hmax
    have hnone := (Checked.includesPoint_eq_none_iff area e.point).mpr
      (show ¬ e.timestamp.val + 1 < 2 ^ 64 by omega)
    rw [h.includesPoint] at hnone
    cases hnone
  · intro hne
    have ht : e.timestamp.val + 1 < 2 ^ 64 := by omega
    exact ⟨Checked.includesPoint_eq_some area ht, Checked.isCoveredBy_forEntry ht user cap⟩

/-- At the greatest timestamp the full area is asked, and the store panics. -/
theorem last_timestamp_panics :
    ¬ ∀ (area : Area) (e : Entry) (user : UserSelector) (cap : McCapability),
      SelectsEntry area e user cap := by
  intro h
  have hfull := (h .full (Sample.bareEntryAt [] (Fin.last _)) .any Sample.writeCapability).isCoveredBy
  cases hfull

end IrohWillow
