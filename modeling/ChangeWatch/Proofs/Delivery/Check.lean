import ChangeWatch.Proofs.Identity
import ChangeWatch.Proofs.Progress

/-!
What a listener knows after a check. As long as the changes that a check finds are handed over, the
listener knows the remembered values. A dropped change is remembered and never told.
-/
namespace ChangeWatch

/-- The values that a listener has heard of last, by the positions of their expressions. -/
abbrev View := Nat → Cached

namespace View

/-- What is known after some changes. -/
def hear (view : View) : List (Nat × ChangeRecord) → View
  | [] => view
  | (position, record) :: changes =>
    hear (fun other => if other = position then .set record.current else view other) changes

variable {view : View} {position : Nat} {record : ChangeRecord}
  {changes : List (Nat × ChangeRecord)}

theorem hear_append (view : View) (changes later : List (Nat × ChangeRecord)) :
    view.hear (changes ++ later) = (view.hear changes).hear later := by
  induction changes generalizing view with
  | nil => rfl
  | cons change changes ih => exact ih _

theorem hear_of_notMem (absent : position ∉ changes.map Prod.fst) :
    view.hear changes position = view position := by
  induction changes generalizing view with
  | nil => rfl
  | cons change changes ih =>
    simp only [List.map_cons, List.mem_cons, not_or] at absent
    rw [hear, ih absent.2, if_neg absent.1]

theorem hear_of_mem (distinct : (changes.map Prod.fst).Nodup)
    (present : (position, record) ∈ changes) :
    view.hear changes position = .set record.current := by
  induction changes generalizing view with
  | nil => cases present
  | cons change changes ih =>
    simp only [List.map_cons, List.nodup_cons] at distinct
    rcases List.mem_cons.mp present with rfl | later
    · rw [hear, hear_of_notMem distinct.1, if_pos rfl]
    · exact ih distinct.2 later

end View

/-- The remembered values are known. -/
def View.Shows (view : View) (bindings : List (Binding κ)) : Prop :=
  ∀ (position : Nat) (binding : Binding κ),
    bindings[position]? = some binding → binding.previous = view position

/-- A remembered value differs from none that is identical to it. -/
theorem Cached.ne_of_differsFrom {cached : Cached} {current : Value}
    (differs : cached.differsFrom current = true) : cached ≠ .set current := by
  rintro rfl
  simp [differsFrom, Value.identical, Value.identical_self] at differs

theorem Checked.positions_of_changes (checked : List (Checked κ)) :
    ((checked.filterMap Checked.changeAt?).map Prod.fst).Sublist
      (checked.map Checked.position) := by
  induction checked with
  | nil => exact .slnil
  | cons checked others ih =>
    cases changed : checked.change? with
    | none => simpa [Checked.changeAt?, changed] using ih.cons checked.position
    | some record => simpa [Checked.changeAt?, changed] using ih

namespace Progress.Explains

variable {progress : Progress κ} {count : Nat} {bindings : List (Binding κ)}
  {told : (Except CheckError Nat × List (Binding κ)) × List Event} {view : View}
  (explains : progress.Explains {} count 0 bindings told)
include explains

theorem position_of_getElem? {index : Nat} {checked : Checked κ}
    (found : progress.checked[index]? = some checked) : checked.position = index := by
  obtain ⟨bound, rfl⟩ := List.getElem?_eq_some_iff.mp found
  have listed := congrArg (·[index]?) explains.positions
  simpa [bound] using listed

/-- An expression whose change is reported was passed at its position. -/
theorem checked_of_change {position : Nat} {record : ChangeRecord}
    (found : (position, record) ∈ progress.changes) :
    ∃ checked, progress.checked[position]? = some checked ∧ checked.change? = some record := by
  obtain ⟨checked, member, changed⟩ := List.mem_filterMap.mp found
  obtain ⟨index, at_index⟩ := List.getElem?_of_mem member
  obtain ⟨made, change, paired⟩ := Option.map_eq_some_iff.mp changed
  cases paired
  rw [explains.position_of_getElem? at_index]
  exact ⟨checked, at_index, change⟩

theorem changes_ordered : (progress.changes.map Prod.fst).Pairwise (· < ·) := by
  have listed := Checked.positions_of_changes progress.checked
  rw [explains.positions] at listed
  exact List.Pairwise.sublist listed List.pairwise_lt_range'

theorem changes_distinct : (progress.changes.map Prod.fst).Nodup :=
  explains.changes_ordered.imp Nat.ne_of_lt

/-- A passed expression is found and left at its position. -/
theorem getElem?_of_checked {index : Nat} {checked : Checked κ}
    (found : progress.checked[index]? = some checked) :
    bindings[index]? = some checked.binding ∧ told.1.2[index]? = some checked.after := by
  obtain ⟨bound, _⟩ := List.getElem?_eq_some_iff.mp found
  rw [← explains.found, explains.leaves, List.getElem?_append_left (by simpa using bound),
    List.getElem?_append_left (by simpa using bound), List.getElem?_map, List.getElem?_map, found]
  exact ⟨rfl, rfl⟩

/-- Found changes start from the known values. -/
theorem change_differs (known : view.Shows bindings) {position : Nat} {record : ChangeRecord}
    (found : (position, record) ∈ progress.changes) :
    (view position).differsFrom record.current = true := by
  obtain ⟨checked, passed, changed⟩ := explains.checked_of_change found
  rw [← known position checked.binding (explains.getElem?_of_checked passed).1]
  simp only [Checked.change?] at changed
  split at changed
  · cases changed
  · split at changed
    · cases changed
      assumption
    · cases changed

/-- Found changes carry the names of the expressions at their positions. -/
theorem change_named {position : Nat} {record : ChangeRecord}
    (found : (position, record) ∈ progress.changes) :
    bindings[position]?.map Binding.id = some record.binding := by
  obtain ⟨checked, passed, changed⟩ := explains.checked_of_change found
  rw [(explains.getElem?_of_checked passed).1, Option.map_some]
  simp only [Checked.change?] at changed
  split at changed
  · cases changed
  · split at changed
    · cases changed
      rfl
    · cases changed

/-- What is remembered is what was known, with all changes that were found. -/
theorem shows_changes (known : view.Shows bindings) :
    (view.hear progress.changes).Shows told.1.2 := by
  intro position binding left
  cases passed : progress.checked[position]? with
  | some checked =>
    obtain ⟨listed, leaves⟩ := explains.getElem?_of_checked passed
    cases Option.some.inj (left.symm.trans leaves)
    cases changed : checked.change? with
    | none =>
      have absent : position ∉ progress.changes.map Prod.fst := by
        intro present
        obtain ⟨⟨_, record⟩, member, rfl⟩ := List.mem_map.mp present
        obtain ⟨other, same, change⟩ := explains.checked_of_change member
        cases Option.some.inj (passed.symm.trans same)
        cases changed.symm.trans change
      rw [View.hear_of_notMem absent, ← known position checked.binding listed]
      simp [Checked.after, changed]
    | some record =>
      have member : (position, record) ∈ progress.changes := by
        refine List.mem_filterMap.mpr ⟨checked, List.mem_of_getElem? passed, ?_⟩
        simp [Checked.changeAt?, changed, explains.position_of_getElem? passed]
      rw [View.hear_of_mem explains.changes_distinct member]
      simp [Checked.after, changed]
  | none =>
    have beyond := List.getElem?_eq_none_iff.mp passed
    have absent : position ∉ progress.changes.map Prod.fst := by
      intro present
      obtain ⟨⟨_, record⟩, member, rfl⟩ := List.mem_map.mp present
      obtain ⟨other, same, _⟩ := explains.checked_of_change member
      cases passed.symm.trans same
    rw [View.hear_of_notMem absent]
    rw [explains.leaves, List.getElem?_append_right (by simpa using beyond)] at left
    have remembers := congrArg (·[position - progress.checked.length]?) explains.remembers
    simp only [List.length_map] at left
    simp only [List.getElem?_map, left, Option.map_some] at remembers
    obtain ⟨found, at_position, same⟩ := Option.map_eq_some_iff.mp remembers.symm
    rw [← same]
    apply known
    rw [← explains.found, List.getElem?_append_right (by simpa using beyond), List.length_map]
    exact at_position

/-- A check without failure drops nothing. -/
theorem lostIn_of_ok {total : Nat} (passed : told.1.1 = .ok total) : Event.lostIn told.2 = [] := by
  obtain ⟨_, _, events, _⟩ := explains.passes total passed
  have settles := explains.settles
  rw [events, Checked.heardIn_tell Pending.empty_sound] at settles
  rw [events]
  exact List.append_right_eq_self.mp settles

/-- A listener who misses a change does not know what is remembered. -/
theorem not_shows_of_lost (known : view.Shows bindings) (lost : Event.lostIn told.2 ≠ []) :
    ¬ (view.hear (Event.heardIn told.2)).Shows told.1.2 := by
  intro shows
  obtain ⟨⟨position, record⟩, rest, first⟩ := List.exists_cons_of_ne_nil lost
  have settles := explains.settles
  have distinct := explains.changes_distinct
  rw [first, List.nil_append] at settles
  have found : (position, record) ∈ progress.changes := by simp [← settles]
  obtain ⟨checked, passed, _⟩ := explains.checked_of_change found
  have leaves := (explains.getElem?_of_checked passed).2
  have absent : position ∉ (Event.heardIn told.2).map Prod.fst := by
    rw [← settles, List.map_append, List.nodup_append] at distinct
    intro heard
    exact distinct.2.2 position heard position (by simp) rfl
  have remembered := explains.shows_changes known position checked.after leaves
  have heard := shows position checked.after leaves
  rw [View.hear_of_mem distinct found] at remembered
  rw [View.hear_of_notMem absent, remembered] at heard
  exact Cached.ne_of_differsFrom (explains.change_differs known found) heard.symm

end Progress.Explains

/-- A listener who knows the remembered values knows them after a check that drops nothing. A check
that drops a change fails, and its listener falls behind. -/
theorem Detector.narrate_shows (host : Host σ) (purpose : Purpose) {detector : Detector σ κ}
    {view : View} (known : view.Shows detector.bindings) (state : σ) :
    let told := detector.narrate host purpose state
    (Event.lostIn told.1.2 = [] →
      (view.hear (Event.heardIn told.1.2)).Shows told.1.1.2.bindings) ∧
    (Event.lostIn told.1.2 ≠ [] →
      told.1.1.2.isHydrated ∧
      ¬ (view.hear (Event.heardIn told.1.2)).Shows told.1.1.2.bindings ∧
      ∃ error, told.1.1.1 = .error error) := by
  cases given : detector.scope with
  | none =>
    rw [narrate_of_none host given]
    exact ⟨fun _ => known, fun lost => absurd rfl lost⟩
  | some scope =>
    obtain ⟨progress, explains⟩ := narrateFrom_explained host detector scope purpose
      Pending.empty_sound 0 0 detector.bindings state
    rw [narrate_of_scope host given]
    refine ⟨?_, ?_⟩
    · intro kept
      have settles := explains.settles
      rw [kept, List.append_nil] at settles
      rw [settles]
      exact explains.shows_changes known
    · intro lost
      refine ⟨by simp [isHydrated, given], explains.not_shows_of_lost known lost, ?_⟩
      cases ended : (detector.narrateFrom host scope purpose {} 0 0 detector.bindings
        state).1.1.1 with
      | error error => exact ⟨error, rfl⟩
      | ok total => exact absurd (explains.lostIn_of_ok ended) lost

/-- What a check hands over is in the order of the expressions and carries their names. -/
theorem Detector.narrate_listed (host : Host σ) (purpose : Purpose) (detector : Detector σ κ)
    (state : σ) :
    let heard := Event.heardIn (detector.narrate host purpose state).1.2
    (heard.map Prod.fst).Pairwise (· < ·) ∧ ∀ position record, (position, record) ∈ heard →
      detector.bindings[position]?.map Binding.id = some record.binding := by
  cases given : detector.scope with
  | none =>
    rw [narrate_of_none host given]
    exact ⟨.nil, fun _ _ => nofun⟩
  | some scope =>
    obtain ⟨progress, explains⟩ := narrateFrom_explained host detector scope purpose
      Pending.empty_sound 0 0 detector.bindings state
    have before : Event.heardIn (detector.narrateFrom host scope purpose {} 0 0 detector.bindings
        state).1.2 <+: progress.changes := ⟨_, explains.settles.trans (List.nil_append _)⟩
    rw [narrate_of_scope host given]
    refine ⟨.sublist (before.sublist.map _) explains.changes_ordered, fun position record heard => ?_⟩
    exact explains.change_named (before.subset heard)

end ChangeWatch
