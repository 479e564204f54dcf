import ChangeWatch.Proofs.Reports.Checks

/-!
Chains of changes. Whoever has heard of all changes of an expression hears the next one begin with the
value that the last one came to. Reports show this in the documents of the values: the document of a value
without objects does not depend on the record.
-/
namespace ChangeWatch

/-- All changes of a report, group by group. -/
def StepReport.changes (report : StepReport) : List ChangeReport :=
  report.groups.flatMap GroupReport.changes

/-- Changes of one expression. Each begins with what the one before it came to, the first one with what
was known already. -/
def Chained : Option Json → List ChangeReport → Prop
  | _, [] => True
  | known, change :: changes => change.previous = known ∧ Chained (some change.current) changes

section Documents

/-- The document of a value without objects. -/
def Value.document (value : Value) : Json := value.toJsonWith fun _ => .null

/-- What is reported of a change between values without objects. -/
def ChangeRecord.report (change : ChangeRecord) : ChangeReport where
  binding := change.binding.text
  previous := change.previous.value?.map Value.document
  current := change.current.document

variable [Epoch.Uncalled]

namespace Value

mutual
theorem toJsonWith_tidy (barren : Epoch.Barren) (expand : ObjectRef → Json) :
    (value : Value) → value.Tidy → value.toJsonWith expand = value.document
  | list _ items, ⟨_, tidy⟩ =>
    congrArg Json.array (itemsToJson_tidy barren expand items tidy)
  | map _ entries, ⟨_, _, tidy⟩ =>
    congrArg Json.object (entriesToJson_tidy barren expand entries tidy)
  | object ref, known => (barren.objects ref known).elim
  | null, _ | bool _, _ | int _, _ | float _, _ | str _, _ | function _, _ => rfl

theorem itemsToJson_tidy (barren : Epoch.Barren) (expand : ObjectRef → Json) :
    (items : List Value) → SoundItems (fun _ => True) items →
    itemsToJson expand items = itemsToJson (fun _ => .null) items
  | [], _ => rfl
  | item :: items, ⟨first, others⟩ =>
    congrArg₂ List.cons (toJsonWith_tidy barren expand item first)
      (itemsToJson_tidy barren expand items others)

theorem entriesToJson_tidy (barren : Epoch.Barren) (expand : ObjectRef → Json) :
    (entries : List (String × Value)) → SoundEntries (fun _ => True) entries →
    entriesToJson expand entries = entriesToJson (fun _ => .null) entries
  | [], _ => rfl
  | (name, value) :: entries, ⟨first, others⟩ =>
    congrArg₂ (fun json rest => (name, json) :: rest) (toJsonWith_tidy barren expand value first)
      (entriesToJson_tidy barren expand entries others)
end

theorem toJson_tidy (barren : Epoch.Barren) (fields : ObjectRef → List (String × Value)) (depth : Nat)
    {value : Value} (tidy : value.Tidy) : value.toJson fields depth = value.document := by
  cases depth with
  | zero => rfl
  | succ depth => exact toJsonWith_tidy barren _ value tidy

end Value

theorem Scenario.ofRecord_tidy (barren : Epoch.Barren) (watched : Watched) {change : ChangeRecord}
    (tidy : change.Tidy) : ofRecord watched change = change.report := by
  obtain ⟨binding, previous, current⟩ := change
  have shown := Value.toJson_tidy barren (host.fields watched) (host.nesting watched) tidy.current
  cases previous with
  | uninitialized => simp only [ofRecord, ChangeRecord.report, Cached.value?, Option.map_none, shown]
  | set value =>
    have before := Value.toJson_tidy barren (host.fields watched) (host.nesting watched)
      (tidy.previous value rfl)
    simp only [ofRecord, ChangeRecord.report, Cached.value?, Option.map_some, shown, before]

/-- What is reported of the calls of the dispatcher is what was handed over. -/
theorem Event.reported (barren : Epoch.Barren) (watched : Scenario.Watched) {events : List Event}
    (proper : ∀ event ∈ events, event.Proper) :
    ((events.flatMap calls).map (Scenario.ofNotification watched)).flatMap GroupReport.changes =
      (heardIn events).map fun change => change.2.report := by
  induction events with
  | nil => rfl
  | cons event events ih =>
    obtain ⟨first, others⟩ := List.forall_mem_cons.mp proper
    have rest := ih others
    cases event with
    | handed group changes =>
      have shown : (changes.map Prod.snd).map (Scenario.ofRecord watched) =
          changes.map fun change => change.2.report := by
        rw [List.map_map]
        exact List.map_congr_left fun change member =>
          Scenario.ofRecord_tidy barren watched (first.2 change member)
      simp only [heardIn, List.flatMap_cons, calls, heard, List.map_append, List.flatMap_append,
        List.map_cons, List.map_nil, List.flatMap_nil, List.append_nil, Scenario.ofNotification, shown]
      exact congrArg _ rest
    | evaluated _ _ | dropped _ => exact rest

/-- No group without changes is reported. -/
theorem Event.groups_nonempty (watched : Scenario.Watched) {events : List Event}
    (proper : ∀ event ∈ events, event.Proper) :
    ∀ group ∈ (events.flatMap calls).map (Scenario.ofNotification watched), group.changes ≠ [] := by
  intro group member
  obtain ⟨notification, called, rfl⟩ := List.mem_map.mp member
  obtain ⟨event, happened, calling⟩ := List.mem_flatMap.mp called
  have fine := proper event happened
  cases event with
  | handed label changes =>
    cases List.mem_singleton.mp calling
    simpa only [Scenario.ofNotification, ne_eq, List.map_eq_nil_iff] using fine.1
  | evaluated _ _ | dropped _ => cases calling

end Documents

namespace View

/-- Changes of expressions with the given labels, each from the value that was known before it. -/
def Follows (labels : List Label) : View → List (Nat × ChangeRecord) → Prop
  | _, [] => True
  | view, (position, record) :: changes =>
    labels[position]? = some record.binding ∧ record.previous = view position ∧
      Follows labels (view.hear [(position, record)]) changes

variable {labels : List Label} {view : View} {changes : List (Nat × ChangeRecord)}

/-- Changes of different expressions follow if each one is from a known value. -/
theorem follows_of_distinct (distinct : (changes.map Prod.fst).Nodup)
    (fits : ∀ change ∈ changes, labels[change.1]? = some change.2.binding ∧
      change.2.previous = view change.1) : view.Follows labels changes := by
  induction changes generalizing view with
  | nil => trivial
  | cons change changes ih =>
    obtain ⟨absent, others⟩ := List.nodup_cons.mp distinct
    obtain ⟨first, rest⟩ := List.forall_mem_cons.mp fits
    refine ⟨first.1, first.2, ih others fun later member => ?_⟩
    have other : later.1 ≠ change.1 := fun same => absent (same ▸ List.mem_map_of_mem member)
    obtain ⟨labelled, known⟩ := rest later member
    have unheard : later.1 ∉ [change].map Prod.fst := by simpa using other
    exact ⟨labelled, known.trans (hear_of_notMem unheard).symm⟩

theorem Follows.append {later : List (Nat × ChangeRecord)} (follows : view.Follows labels changes)
    (others : (view.hear changes).Follows labels later) : view.Follows labels (changes ++ later) := by
  induction changes generalizing view with
  | nil => exact others
  | cons change changes ih => exact ⟨follows.1, follows.2.1, ih follows.2.2 others⟩

theorem Follows.labelled (follows : view.Follows labels changes) :
    ∀ change ∈ changes, labels[change.1]? = some change.2.binding := by
  induction changes generalizing view with
  | nil => exact nofun
  | cons change changes ih => exact List.forall_mem_cons.mpr ⟨follows.1, ih follows.2.2⟩

/-- Where labels are distinct, the changes with one label are a chain. -/
theorem Follows.chained (follows : view.Follows labels changes) (distinct : labels.Nodup)
    {position : Nat} {label : Label} (labelled : labels[position]? = some label) :
    Chained ((view position).value?.map Value.document)
      ((changes.map fun change => change.2.report).filter (·.binding == label.text)) := by
  induction changes generalizing view with
  | nil => trivial
  | cons change changes ih =>
    obtain ⟨place, record⟩ := change
    obtain ⟨here, known, others⟩ := follows
    have rest := ih others
    simp only [List.map_cons, List.filter_cons]
    by_cases same : record.binding = label
    · have at_position : place = position := by
        obtain ⟨bound, -⟩ := List.getElem?_eq_some_iff.mp here
        exact (List.getElem?_inj bound distinct).mp (here.trans (same ▸ labelled.symm))
      subst at_position
      rw [if_pos (by simp [ChangeRecord.report, same])]
      refine ⟨by rw [ChangeRecord.report, known], ?_⟩
      have behind : view.hear [(place, record)] place = .set record.current := if_pos rfl
      rwa [behind] at rest
    · have elsewhere : position ∉ [(place, record)].map Prod.fst := by
        simp only [List.map_cons, List.map_nil, List.mem_singleton]
        rintro rfl
        exact same (Option.some.inj (here.symm.trans labelled))
      have texts : record.binding.text ≠ label.text := fun texts =>
        same (congrArg Label.mk texts)
      rw [if_neg (by simpa [ChangeRecord.report] using texts)]
      rwa [hear_of_notMem elsewhere] at rest

/-- Nobody reports under a name that labels nothing. -/
theorem Follows.unlabelled (follows : view.Follows labels changes) {name : String}
    (unknown : (⟨name⟩ : Label) ∉ labels) :
    (changes.map fun change => change.2.report).filter (·.binding == name) = [] := by
  refine List.filter_eq_nil_iff.mpr fun report member => ?_
  obtain ⟨change, listed, rfl⟩ := List.mem_map.mp member
  have labelled := List.mem_of_getElem? (follows.labelled change listed)
  simp only [ChangeRecord.report, beq_iff_eq]
  rintro rfl
  exact unknown labelled

/-- Changes at different positions have different labels. -/
theorem Follows.names_distinct (follows : view.Follows labels changes) (distinct : labels.Nodup)
    (positions : (changes.map Prod.fst).Nodup) :
    ((changes.map fun change => change.2.report).map ChangeReport.binding).Nodup := by
  simp only [List.map_map, List.Nodup, List.pairwise_map] at positions ⊢
  refine positions.imp_of_mem fun {first second} member other apart same => apart ?_
  have here := follows.labelled first member
  have there := follows.labelled second other
  have bindings : first.2.binding = second.2.binding := congrArg Label.mk same
  obtain ⟨bound, -⟩ := List.getElem?_eq_some_iff.mp here
  exact (List.getElem?_inj bound distinct).mp (here.trans (bindings ▸ there.symm))

end View
end ChangeWatch
