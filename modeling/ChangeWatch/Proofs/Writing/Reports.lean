import ChangeWatch.CommandLine.Basic
import ChangeWatch.Proofs.Writing.Texts

/-!
What the documents of reports tell. A document shows everything that is reported but whether a previous value
was there: one that is missing is written as null, and so is a cached null. Reports with one document are
the same up to that, and where no null was cached they are the same and are listed alike.
-/
namespace ChangeWatch

/-- Lists that two functions tell alike where they tell members alike. -/
theorem map_eq_map_iff_of {α β γ : Type} {f : α → β} {g : α → γ} {xs ys : List α}
    (alike : ∀ x ∈ xs, ∀ y ∈ ys, f x = f y ↔ g x = g y) : xs.map f = ys.map f ↔ xs.map g = ys.map g := by
  induction xs generalizing ys with
  | nil => simp
  | cons x xs ih =>
    cases ys with
    | nil => simp
    | cons y ys =>
      have first := alike x List.mem_cons_self y List.mem_cons_self
      have others := ih fun x here y there =>
        alike x (List.mem_cons_of_mem _ here) y (List.mem_cons_of_mem _ there)
      rw [List.map_cons, List.map_cons, List.map_cons, List.map_cons, List.cons.injEq, List.cons.injEq, first,
        others]

/-- The report with a null for a previous value that is missing. -/
def ChangeReport.blurred (report : ChangeReport) : ChangeReport :=
  { report with previous := some (report.previous.getD .null) }

def GroupReport.blurred (report : GroupReport) : GroupReport :=
  { report with changes := report.changes.map ChangeReport.blurred }

def StepReport.blurred (report : StepReport) : StepReport :=
  { report with groups := report.groups.map GroupReport.blurred }

/-- A report that a word can count, of documents as they are kept. -/
structure StepReport.IsKept (report : StepReport) : Prop where
  step : report.step < 2 ^ 64
  values : ∀ group ∈ report.groups, ∀ change ∈ group.changes,
    (change.previous.getD .null).NumbersAreKept ∧ change.current.NumbersAreKept

/-- No change of the report is one from a null. -/
def StepReport.NoNullBefore (report : StepReport) : Prop :=
  ∀ group ∈ report.groups, ∀ change ∈ group.changes, change.previous ≠ some .null

theorem ChangeReport.toJson_eq_iff {a b : ChangeReport} : a.toJson = b.toJson ↔ a.blurred = b.blurred := by
  simp [ChangeReport.toJson, ChangeReport.blurred]

theorem GroupReport.toJson_eq_iff {a b : GroupReport} : a.toJson = b.toJson ↔ a.blurred = b.blurred := by
  have changes : a.changes.map ChangeReport.toJson = b.changes.map ChangeReport.toJson ↔ _ :=
    map_eq_map_iff_of fun _ _ _ _ => ChangeReport.toJson_eq_iff
  simp [GroupReport.toJson, GroupReport.blurred, changes]

/-- A previous value that is no null is known from what is written for it. -/
theorem ChangeReport.blurred_eq_iff {a b : ChangeReport} (cached : a.previous ≠ some .null)
    (cached' : b.previous ≠ some .null) : a.blurred = b.blurred ↔ a = b := by
  obtain ⟨binding, previous, current⟩ := a
  obtain ⟨binding', previous', current'⟩ := b
  have known : previous.getD .null = previous'.getD .null ↔ previous = previous' := by
    cases previous with
    | none =>
      cases previous' with
      | none => simp
      | some json' =>
        have other : json' ≠ .null := fun same => cached' (congrArg some same)
        simp [Ne.symm other]
    | some json =>
      have other : json ≠ .null := fun same => cached (congrArg some same)
      cases previous' with
      | none => simp [other]
      | some json' => simp
  simp only [blurred, mk.injEq, Option.some.injEq, known]

theorem GroupReport.blurred_eq_iff {a b : GroupReport}
    (cached : ∀ change ∈ a.changes, change.previous ≠ some .null)
    (cached' : ∀ change ∈ b.changes, change.previous ≠ some .null) : a.blurred = b.blurred ↔ a = b := by
  have changes : a.changes.map ChangeReport.blurred = b.changes.map ChangeReport.blurred ↔
      a.changes.map id = b.changes.map id :=
    map_eq_map_iff_of fun change here change' there =>
      ChangeReport.blurred_eq_iff (cached change here) (cached' change' there)
  rw [List.map_id, List.map_id] at changes
  obtain ⟨group, _⟩ := a
  obtain ⟨group', _⟩ := b
  simp only [blurred, mk.injEq, changes]

theorem Json.ofNat_inj {m n : Nat} (small : m < 2 ^ 64) (small' : n < 2 ^ 64) :
    Json.ofNat m = Json.ofNat n ↔ m = n := by
  constructor
  · intro same
    have word {k : Nat} (small : k < 2 ^ 64) : k.toUInt64.toNat = k := UInt64.toNat_ofNat_of_lt' small
    rw [← word small, ← word small', Number.natural.inj (number.inj same)]
  · rintro rfl
    rfl

namespace StepReport

variable {a b : StepReport}

theorem toJson_eq_iff (small : a.step < 2 ^ 64) (small' : b.step < 2 ^ 64) :
    a.toJson = b.toJson ↔ a.blurred = b.blurred := by
  have groups : a.groups.map GroupReport.toJson = b.groups.map GroupReport.toJson ↔ _ :=
    map_eq_map_iff_of fun _ _ _ _ => GroupReport.toJson_eq_iff
  obtain ⟨step, _, error⟩ := a
  obtain ⟨step', _, error'⟩ := b
  cases error <;> cases error' <;>
    simp [StepReport.toJson, StepReport.blurred, Json.ofNat_inj small small', groups]

theorem IsKept.toJson (kept : a.IsKept) : a.toJson.NumbersAreKept := by
  have changes (group : GroupReport) (member : group ∈ a.groups) : group.toJson.NumbersAreKept := by
    simp only [GroupReport.toJson, Json.NumbersAreKept, Json.FieldNumbersAreKept, Json.itemNumbersAreKept_iff,
      List.forall_mem_map, ChangeReport.toJson, true_and, and_true]
    exact kept.values group member
  have groups : Json.ItemNumbersAreKept (a.groups.map GroupReport.toJson) := by
    simpa only [Json.itemNumbersAreKept_iff, List.forall_mem_map] using changes
  rw [StepReport.toJson]
  split <;> exact ⟨trivial, groups, by simp [Json.FieldNumbersAreKept, Json.NumbersAreKept]⟩

/-- Reports of no change from a null are told by what is left of them. -/
theorem blurred_eq_iff (cached : a.NoNullBefore) (cached' : b.NoNullBefore) :
    a.blurred = b.blurred ↔ a = b := by
  have groups : a.groups.map GroupReport.blurred = b.groups.map GroupReport.blurred ↔
      a.groups.map id = b.groups.map id :=
    map_eq_map_iff_of fun group here group' there =>
      GroupReport.blurred_eq_iff (cached group here) (cached' group' there)
  rw [List.map_id, List.map_id] at groups
  obtain ⟨step, _, error⟩ := a
  obtain ⟨step', _, error'⟩ := b
  simp only [blurred, mk.injEq, groups]

end StepReport

section

variable {first second : List StepReport}

theorem render_json_eq_iff (kept : ∀ report ∈ first, report.IsKept)
    (kept' : ∀ report ∈ second, report.IsKept) :
    CommandLine.render .json first = CommandLine.render .json second ↔
      first.map StepReport.blurred = second.map StepReport.blurred := by
  have numbers {reports : List StepReport} (kept : ∀ report ∈ reports, report.IsKept) :
      (jsonReport reports).NumbersAreKept := by
    rw [jsonReport, Json.NumbersAreKept, Json.itemNumbersAreKept_iff, List.forall_mem_map]
    exact fun report member => (kept report member).toJson
  have documents : first.map StepReport.toJson = second.map StepReport.toJson ↔ _ :=
    map_eq_map_iff_of fun a here b there => StepReport.toJson_eq_iff (kept a here).step (kept' b there).step
  rw [← documents]
  constructor
  · intro same
    have pages : (jsonReport first).pretty 0 = (jsonReport second).pretty 0 := by
      have letters := congrArg String.toList same
      simp only [CommandLine.render, String.toList_append] at letters
      exact String.toList_inj.mp (List.append_cancel_right letters)
    exact Json.array.inj (Json.pretty_inj (numbers kept) (numbers kept') pages)
  · intro same
    rw [CommandLine.render, CommandLine.render, jsonReport, jsonReport, same]

end

/-!
Reports of runs.
-/

mutual
theorem Value.toJsonWith_kept {expand : ObjectRef → Json} (all : ∀ ref, (expand ref).NumbersAreKept) :
    (value : Value) → (toJsonWith expand value).NumbersAreKept
  | null | bool _ | str _ | function _ => trivial
  | int n => by
    rw [toJsonWith, Json.ofInt64]
    split
    · trivial
    · rename_i below
      exact Int64.not_le.mp below
  | float x => by
    rw [toJsonWith, Json.ofFloat]
    split
    · rename_i finite
      exact finite
    · trivial
  | object ref => all ref
  | list _ items => itemsToJson_kept all items
  | map _ entries => entriesToJson_kept all entries

theorem Value.itemsToJson_kept {expand : ObjectRef → Json} (all : ∀ ref, (expand ref).NumbersAreKept) :
    (items : List Value) → Json.ItemNumbersAreKept (itemsToJson expand items)
  | [] => trivial
  | item :: items => ⟨toJsonWith_kept all item, itemsToJson_kept all items⟩

theorem Value.entriesToJson_kept {expand : ObjectRef → Json} (all : ∀ ref, (expand ref).NumbersAreKept) :
    (entries : List (String × Value)) → Json.FieldNumbersAreKept (entriesToJson expand entries)
  | [] => trivial
  | (_, value) :: entries => ⟨toJsonWith_kept all value, entriesToJson_kept all entries⟩
end

/-- Values become documents as they are kept. -/
theorem Value.toJson_kept (fields : ObjectRef → List (String × Value)) (depth : Nat) (value : Value) :
    (value.toJson fields depth).NumbersAreKept := by
  induction depth generalizing value with
  | zero =>
    have nothing (ref : ObjectRef) : ((fun _ => .null : ObjectRef → Json) ref).NumbersAreKept := trivial
    exact toJsonWith_kept nothing value
  | succ depth ih =>
    refine toJsonWith_kept (fun ref => ?_) value
    rw [Json.NumbersAreKept, Json.fieldNumbersAreKept_iff, List.forall_mem_map]
    exact fun field _ => ih field.2

namespace Scenario

theorem ofNotification_kept (watched : Watched) (notification : Notification) :
    ∀ change ∈ (ofNotification watched notification).changes,
      (change.previous.getD .null).NumbersAreKept ∧ change.current.NumbersAreKept := by
  rw [ofNotification, List.forall_mem_map]
  intro change _
  refine ⟨?_, Value.toJson_kept _ _ _⟩
  rw [ofRecord]
  cases change.previous.value? with
  | none => trivial
  | some value => exact Value.toJson_kept _ _ _

theorem report_kept (lifeCycle : LifeCycle) {index : Nat} (small : index < 2 ^ 64) (step : Step)
    (state : Watched × Tree Watched Empty) : (report lifeCycle index step state).1.IsKept := by
  constructor
  · exact small
  · intro group member
    obtain ⟨notification, -, rfl⟩ := List.mem_map.mp member
    exact ofNotification_kept _ notification

theorem reportsFrom_kept (lifeCycle : LifeCycle) {index : Nat} {steps : List Step}
    (small : index + steps.length ≤ 2 ^ 64) (state : Watched × Tree Watched Empty) :
    ∀ report ∈ (reportsFrom lifeCycle index steps state).1, report.IsKept := by
  induction steps generalizing index state with
  | nil => nofun
  | cons step steps ih =>
    rw [List.length_cons] at small
    have first := report_kept lifeCycle (show index < 2 ^ 64 by omega) step state
    rcases reported : report lifeCycle index step state with ⟨told, after⟩
    have others := ih (show index + 1 + steps.length ≤ 2 ^ 64 by omega) after
    rw [reported] at first
    simp only [reportsFrom, Bind.bind, StateT.bind, reported]
    split
    · exact List.forall_mem_singleton.mpr first
    · exact List.forall_mem_cons.mpr ⟨first, others⟩

/-- The reports of a run are kept. -/
theorem run_kept {scenario : Scenario} {config : Config} {reports : List StepReport}
    (small : scenario.steps.length < 2 ^ 64) (ran : scenario.run config = .ok reports) :
    ∀ report ∈ reports, report.IsKept := by
  unfold run at ran
  cases read : recordsFrom {} 0 scenario.bindings with
  | error error =>
    rw [read] at ran
    cases ran
  | ok records =>
    rw [read] at ran
    obtain rfl := Except.ok.inj ran
    refine reportsFrom_kept _ ?_ _
    rw [List.length_cons]
    omega

end Scenario

/-- Reports have one document exactly when they are the same up to whether a previous value is missing or
null, and reports of no change from a null are the same then and are listed alike. The reports of runs are
reports of this kind. -/
theorem reports_of_one_document {first second : List StepReport}
    (kept : ∀ report ∈ first, report.IsKept) (kept' : ∀ report ∈ second, report.IsKept) :
    (CommandLine.render .json first = CommandLine.render .json second ↔
      first.map StepReport.blurred = second.map StepReport.blurred) ∧
    ((∀ report ∈ first, report.NoNullBefore) → (∀ report ∈ second, report.NoNullBefore) →
      CommandLine.render .json first = CommandLine.render .json second →
        first = second ∧ CommandLine.render .text first = CommandLine.render .text second) ∧
    ∀ (scenario : Scenario) config reports, scenario.steps.length < 2 ^ 64 →
      scenario.run config = .ok reports → ∀ report ∈ reports, report.IsKept := by
  have documents := render_json_eq_iff kept kept'
  refine ⟨documents, fun cached cached' same => ?_, fun _ _ _ small ran => Scenario.run_kept small ran⟩
  have reports : first.map StepReport.blurred = second.map StepReport.blurred ↔
      first.map id = second.map id :=
    map_eq_map_iff_of fun a here b there => StepReport.blurred_eq_iff (cached a here) (cached' b there)
  have equal := reports.mp (documents.mp same)
  rw [List.map_id, List.map_id] at equal
  exact ⟨equal, by rw [equal]⟩

namespace StepReport.Samples

/-- One step with one change. -/
def changed (previous : Option Json) (current : Json) : List StepReport :=
  [{ step := 2, groups := [{ group := "default", changes := [{ binding := "a", previous, current }] }] }]

theorem changed_kept {previous : Option Json} {current : Json}
    (before : (previous.getD .null).NumbersAreKept) (now : current.NumbersAreKept) :
    ∀ report ∈ changed previous current, report.IsKept := by
  refine List.forall_mem_singleton.mpr ⟨show 2 < 2 ^ 64 by decide, ?_⟩
  exact List.forall_mem_singleton.mpr (List.forall_mem_singleton.mpr ⟨before, now⟩)

theorem changed_noNullBefore {previous : Option Json} {current : Json} (other : previous ≠ some .null) :
    ∀ report ∈ changed previous current, report.NoNullBefore :=
  List.forall_mem_singleton.mpr (List.forall_mem_singleton.mpr (List.forall_mem_singleton.mpr other))

end StepReport.Samples

open StepReport.Samples in
/-- An integer and a float of one value are told apart, and a change from a null is not told from a first
one. -/
theorem reports_of_one_document_values :
    CommandLine.render .json (changed (some (.string "1")) (.number (.natural 1))) ≠
      CommandLine.render .json (changed (some (.string "1")) (.number (.real 1.0))) ∧
    CommandLine.render .json (changed none (.number (.real 1.0))) =
      CommandLine.render .json (changed (some .null) (.number (.real 1.0))) := by
  have whole : ∀ report ∈ changed (some (.string "1")) (.number (.natural 1)), report.IsKept :=
    changed_kept trivial trivial
  have pointed (previous : Option Json) (before : (previous.getD .null).NumbersAreKept) :
      ∀ report ∈ changed previous (.number (.real 1.0)), report.IsKept :=
    changed_kept before (show (1.0 : Float).isFinite = true by rfl)
  have cached (current : Json) : ∀ report ∈ changed (some (.string "1")) current, report.NoNullBefore :=
    changed_noNullBefore nofun
  constructor
  · intro same
    obtain ⟨equal, -⟩ := (reports_of_one_document whole (pointed (some (.string "1")) trivial)).2.1
      (cached (.number (.natural 1))) (cached (.number (.real 1.0))) same
    simp [changed] at equal
  · exact (reports_of_one_document (pointed none trivial) (pointed (some .null) trivial)).1.mpr rfl

open StepReport.Samples in
/-- A change that is the first of its expression has the document of a change from a null, though it is
listed otherwise. -/
theorem document_hides_absence :
    CommandLine.render .json (changed none (.number (.natural 1))) =
        CommandLine.render .json (changed (some .null) (.number (.natural 1))) ∧
      changed none (.number (.natural 1)) ≠ changed (some .null) (.number (.natural 1)) ∧
      CommandLine.render .text (changed none (.number (.natural 1))) ≠
        CommandLine.render .text (changed (some .null) (.number (.natural 1))) := by
  refine ⟨rfl, ?_, by decide +kernel⟩
  intro same
  simp [changed] at same

end ChangeWatch
