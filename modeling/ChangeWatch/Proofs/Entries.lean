import ChangeWatch.Entries
import Mathlib.Data.List.Nodup

/-!
Laws of entries. Writing keeps names in their order and adds nothing but what is written, and reading
and writing do not look at values.
-/
namespace ChangeWatch.Entries

variable {entries : Entries α} {name : String} {value : α}

/-- The same names with other values. -/
def mapValues (f : α → β) (entries : Entries α) : Entries β :=
  entries.map fun entry => (entry.1, f entry.2)

theorem filterMap_mapValues (f : α → β) (g : String × β → Option γ) (entries : Entries α) :
    (mapValues f entries).filterMap g = entries.filterMap fun entry => g (entry.1, f entry.2) := by
  simp only [mapValues, List.filterMap_map]
  rfl

theorem get?_mapValues (f : α → β) (entries : Entries α) (name : String) :
    get? (mapValues f entries) name = (get? entries name).map f := by
  simp only [get?, mapValues, List.find?_map, Option.map_map]
  rfl

theorem insert_mapValues (f : α → β) (name : String) (value : α) (entries : Entries α) :
    insert name (f value) (mapValues f entries) = mapValues f (insert name value entries) := by
  induction entries with
  | nil => rfl
  | cons entry entries ih =>
    simp only [mapValues, List.map_cons, insert] at ih ⊢
    split
    · rfl
    · split
      · rfl
      · rw [ih, List.map_cons]

theorem ofList_mapValues (f : α → β) (bindings : List (String × α)) :
    ofList (mapValues f bindings) = mapValues f (ofList bindings) := by
  have from_any (entries : Entries α) :
      (mapValues f bindings).foldl (fun entries binding => insert binding.1 binding.2 entries)
        (mapValues f entries) =
      mapValues f (bindings.foldl (fun entries binding => insert binding.1 binding.2 entries)
        entries) := by
    induction bindings generalizing entries with
    | nil => rfl
    | cons binding bindings ih =>
      rw [List.foldl_cons, ← ih, ← insert_mapValues]
      rfl
  exact from_any []

theorem mem_of_get? (found : get? entries name = some value) : (name, value) ∈ entries := by
  obtain ⟨entry, first, rfl⟩ := Option.map_eq_some_iff.mp found
  have named := List.find?_some first
  rw [beq_iff_eq] at named
  rw [← named]
  exact List.mem_of_find?_eq_some first

/-- A name that occurs once is found with its value. -/
theorem get?_of_mem (distinct : (entries.map Prod.fst).Nodup) (member : (name, value) ∈ entries) :
    get? entries name = some value := by
  induction entries with
  | nil => cases member
  | cons entry entries ih =>
    simp only [List.map_cons, List.nodup_cons] at distinct
    rcases List.mem_cons.mp member with rfl | later
    · simp [get?]
    · have other : entry.1 ≠ name := by
        rintro rfl
        exact distinct.1 (List.mem_map.mpr ⟨(entry.1, value), later, rfl⟩)
      have rest := ih distinct.2 later
      simpa [get?, other] using rest

theorem mem_of_mem_insert {entry : String × α} (member : entry ∈ insert name value entries) :
    entry = (name, value) ∨ entry ∈ entries := by
  induction entries with
  | nil => exact .inl (List.mem_singleton.mp member)
  | cons first entries ih =>
    simp only [insert] at member
    split at member
    · exact List.mem_cons.mp member
    · split at member
      · exact (List.mem_cons.mp member).imp_right (List.mem_cons_of_mem first)
      · rcases List.mem_cons.mp member with rfl | later
        · exact .inr List.mem_cons_self
        · exact (ih later).imp_right (List.mem_cons_of_mem first)

theorem insert_sorted (sorted : entries.Sorted) (name : String) (value : α) :
    (insert name value entries).Sorted := by
  induction entries with
  | nil => exact List.pairwise_singleton _ _
  | cons first entries ih =>
    obtain ⟨behind, rest⟩ := List.pairwise_cons.mp sorted
    simp only [insert]
    split
    · rename_i before
      refine List.pairwise_cons.mpr ⟨fun entry member => ?_, sorted⟩
      rcases List.mem_cons.mp member with rfl | later
      · exact before
      · exact String.lt_trans before (behind entry later)
    · rename_i notBefore
      split
      · rename_i same
        exact List.pairwise_cons.mpr ⟨fun entry member => same ▸ behind entry member, rest⟩
      · rename_i different
        refine List.pairwise_cons.mpr ⟨fun entry member => ?_, ih rest⟩
        rcases mem_of_mem_insert member with rfl | later
        · by_cases after : first.1 < name
          · exact after
          · exact absurd (String.le_antisymm (String.not_lt.mp notBefore)
              (String.not_lt.mp after)) different
        · exact behind entry later

/-- Writes bindings one after the other. -/
def insertAll (bindings : List (String × α)) (entries : Entries α) : Entries α :=
  bindings.foldl (fun entries binding => insert binding.1 binding.2 entries) entries

theorem insertAll_sorted (sorted : entries.Sorted) (bindings : List (String × α)) :
    (insertAll bindings entries).Sorted := by
  induction bindings generalizing entries with
  | nil => exact sorted
  | cons binding bindings ih => exact ih (insert_sorted sorted binding.1 binding.2)

theorem ofList_sorted (bindings : List (String × α)) : (ofList bindings).Sorted :=
  insertAll_sorted .nil bindings

theorem Sorted.distinct (sorted : entries.Sorted) : (entries.map Prod.fst).Nodup := by
  refine List.pairwise_map.mpr (List.Pairwise.imp ?_ sorted)
  intro first second before same
  rw [same] at before
  exact String.lt_irrefl _ before

theorem mem_of_mem_ofList {bindings : List (String × α)} {entry : String × α}
    (member : entry ∈ ofList bindings) : entry ∈ bindings := by
  have from_any (written : List (String × α)) (entries : Entries α)
      (found : entry ∈ written.foldl (fun entries binding => insert binding.1 binding.2 entries)
        entries) : entry ∈ entries ∨ entry ∈ written := by
    induction written generalizing entries with
    | nil => exact .inl found
    | cons binding written ih =>
      rcases ih _ found with inserted | later
      · rcases mem_of_mem_insert inserted with rfl | earlier
        · exact .inr List.mem_cons_self
        · exact .inl earlier
      · exact .inr (List.mem_cons_of_mem binding later)
  exact (from_any bindings [] member).resolve_left List.not_mem_nil

/-- A name behind all others is written at the end. -/
theorem insert_last (value : α) (behind : ∀ entry ∈ entries, entry.1 < name) :
    insert name value entries = entries ++ [(name, value)] := by
  induction entries with
  | nil => rfl
  | cons first entries ih =>
    obtain ⟨before, rest⟩ := List.forall_mem_cons.mp behind
    have notAfter : ¬ name < first.1 := fun after => String.lt_irrefl _ (String.lt_trans before after)
    have apart : first.1 ≠ name := by
      rintro same
      rw [same] at before
      exact String.lt_irrefl _ before
    rw [insert, if_neg notAfter, if_neg apart, ih rest, List.cons_append]

/-- Entries in order are what they are written as. -/
theorem Sorted.ofList_eq (sorted : entries.Sorted) : ofList entries = entries := by
  have from_any (written entries : Entries α) (sorted : Sorted (written ++ entries)) :
      insertAll entries written = written ++ entries := by
    induction entries generalizing written with
    | nil => exact (List.append_nil written).symm
    | cons entry entries ih =>
      obtain ⟨-, -, across⟩ := List.pairwise_append.mp sorted
      have behind : ∀ earlier ∈ written, earlier.1 < entry.1 := fun earlier member =>
        across earlier member entry List.mem_cons_self
      rw [List.append_cons] at sorted ⊢
      rw [← ih _ sorted, ← insert_last entry.2 behind]
      rfl
  exact from_any [] entries sorted

theorem Sorted.of_names {others : Entries β} (sorted : entries.Sorted)
    (same : names others = names entries) : others.Sorted := by
  have inOrder : (names entries).Pairwise (· < ·) := List.pairwise_map.mpr sorted
  rw [← same] at inOrder
  exact List.pairwise_map.mp inOrder

section Reading

variable {other : String}

theorem get?_cons (name : String) (value : α) (entries : Entries α) (other : String) :
    get? ((name, value) :: entries) other = if name = other then some value else get? entries other := by
  by_cases here : name = other <;> simp [get?, here]

theorem get?_eq_none (absent : ∀ entry ∈ entries, entry.1 ≠ name) : get? entries name = none := by
  refine Option.map_eq_none_iff.mpr (List.find?_eq_none.mpr fun entry member => ?_)
  rw [beq_iff_eq]
  exact absent entry member

theorem Sorted.get?_eq_some (sorted : entries.Sorted) :
    get? entries name = some value ↔ (name, value) ∈ entries :=
  ⟨mem_of_get?, get?_of_mem sorted.distinct⟩

/-- A name up to that of the first entry is not found behind it. -/
theorem Sorted.get?_behind (sorted : Sorted ((name, value) :: entries)) (before : other ≤ name) :
    get? entries other = none := by
  refine get?_eq_none fun entry member same => ?_
  have behind := (List.pairwise_cons.mp sorted).1 entry member
  rw [same] at behind
  exact before behind

/-- No name before the first one is found. -/
theorem Sorted.le_of_get? (sorted : Sorted ((name, value) :: entries))
    (found : get? ((name, value) :: entries) other ≠ none) : name ≤ other := by
  intro before
  have apart : name ≠ other := by
    rintro rfl
    exact String.lt_irrefl name before
  rw [get?_cons, if_neg apart] at found
  refine found (sorted.get?_behind (String.not_lt.mp fun after => ?_))
  exact String.lt_irrefl _ (String.lt_trans before after)

/-- A written name has the written value, and others have what they had. -/
theorem get?_insert (name : String) (value : α) (entries : Entries α) (other : String) :
    get? (insert name value entries) other =
      if name = other then some value else get? entries other := by
  induction entries with
  | nil => exact get?_cons name value [] other
  | cons entry entries ih =>
    obtain ⟨key, old⟩ := entry
    rw [insert]
    split
    · exact get?_cons name value _ other
    · split
      · rename_i same
        rw [get?_cons, get?_cons, same]
        split <;> rfl
      · rename_i different
        rw [get?_cons, get?_cons, ih]
        by_cases here : key = other
        · subst here
          simp [Ne.symm different]
        · simp [here]

theorem erase_sublist (name : String) (entries : Entries α) : (erase name entries).Sublist entries := by
  induction entries with
  | nil => exact .refl _
  | cons entry entries ih =>
    rw [erase]
    split
    · exact List.sublist_cons_self entry entries
    · exact ih.cons_cons entry

/-- A name that is erased is gone, and others have what they had. -/
theorem get?_erase (sorted : entries.Sorted) (name other : String) :
    get? (erase name entries) other = if name = other then none else get? entries other := by
  induction entries with
  | nil => simp [erase, get?]
  | cons entry entries ih =>
    obtain ⟨key, old⟩ := entry
    have rest := (List.pairwise_cons.mp sorted).2
    rw [erase]
    split
    · rename_i same
      subst same
      rw [get?_cons]
      by_cases here : key = other
      · subst here
        rw [if_pos rfl]
        exact sorted.get?_behind (String.le_refl _)
      · simp [here]
    · rename_i different
      rw [get?_cons, get?_cons, ih rest]
      by_cases here : key = other
      · subst here
        simp [Ne.symm different]
      · simp [here]

/-- Erases names one after the other. -/
def eraseAll (names : List String) (entries : Entries α) : Entries α :=
  names.foldl (fun entries name => erase name entries) entries

theorem eraseAll_sorted (sorted : entries.Sorted) (names : List String) :
    (eraseAll names entries).Sorted := by
  induction names generalizing entries with
  | nil => exact sorted
  | cons name names ih => exact ih (sorted.sublist (erase_sublist name entries))

theorem get?_eraseAll (sorted : entries.Sorted) (names : List String) (other : String) :
    get? (eraseAll names entries) other = if other ∈ names then none else get? entries other := by
  induction names generalizing entries with
  | nil => rfl
  | cons name names ih =>
    refine (ih (sorted.sublist (erase_sublist name entries))).trans ?_
    rw [get?_erase sorted]
    by_cases here : name = other
    · simp [here]
    · simp [here, Ne.symm here]

theorem get?_insertAll {bindings : Entries α} (sorted : bindings.Sorted) (entries : Entries α)
    (other : String) :
    get? (insertAll bindings entries) other = (get? bindings other).or (get? entries other) := by
  induction bindings generalizing entries with
  | nil => rfl
  | cons binding bindings ih =>
    obtain ⟨name, value⟩ := binding
    refine (ih (List.pairwise_cons.mp sorted).2 _).trans ?_
    rw [get?_insert, get?_cons]
    by_cases here : name = other
    · subst here
      simp [sorted.get?_behind (String.le_refl _)]
    · simp [here]

end Reading

theorem exists_mem_map_zipIdx {element : α} {elements : List α} (f : α × Nat → β)
    (member : element ∈ elements) : ∃ index, f (element, index) ∈ elements.zipIdx.map f := by
  obtain ⟨index, found⟩ := List.mem_iff_getElem?.mp member
  exact ⟨index, List.mem_map_of_mem (List.mem_zipIdx_iff_getElem?.mpr found)⟩

/-- What is made of the elements of a list, each with its key, has the order of the list. -/
theorem filterMap_ordered {elements : List α} {keyOf : α → γ} {R : γ → γ → Prop}
    (ordered : elements.Pairwise fun first second => R (keyOf first) (keyOf second))
    {make : α → Option β} {keyOf' : β → γ}
    (keeps : ∀ element made, make element = some made → keyOf' made = keyOf element) :
    (elements.filterMap make).Pairwise fun first second => R (keyOf' first) (keyOf' second) := by
  refine ordered.filterMap make fun first second before made here made' there => ?_
  rw [keeps first made here, keeps second made' there]
  exact before

end ChangeWatch.Entries
