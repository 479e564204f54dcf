import ChangeWatch.Proofs.Entries
import ChangeWatch.Proofs.Lifetimes.Accounts
import ChangeWatch.Proofs.Strategies

/-!
What becomes of the pipes in slots. A slot gives its pipe up before it gets another one, and whatever a
computation does with some slots, it does not touch the pipes of others. So the parts of a computation
may be looked at one after the other, each with the slots that it is about.
-/
namespace ChangeWatch

namespace Journal

variable [DecidableEq κ] {before between after : Journal κ} {deeds later : Journal κ}
  {old middle new : List κ} {olds middles news others mores : List (List κ)} {pipe : κ}

/-- What a slot held before some deeds and holds behind them: the same pipe, or another one that was
made when the old one had been destroyed. -/
def Turnover (deeds : Journal κ) (old new : List κ) : Prop :=
  new = old ∨ (old.map Deed.destroyed ++ new.map Deed.created).Sublist deeds

/-- What some slots held before and hold after, beside any pipes that others hold. -/
structure Handled (before after : Journal κ) (olds news : List (List κ)) : Prop where
  ledger : ∃ ledger : Ledger Nat κ, after = before ++ ledger.journal ∧ ledger.Covers olds news
  accounts : ∀ others, before.Accounts (olds.flatten ++ others) →
    after.Accounts (news.flatten ++ others)

omit [DecidableEq κ] in
theorem Turnover.mono (turnover : Turnover deeds old new) (more : deeds.Sublist later) :
    Turnover later old new := by
  rcases turnover with same | changed
  · exact .inl same
  · exact .inr (changed.trans more)

omit [DecidableEq κ] in
theorem Turnover.trans (first : Turnover deeds old middle) (second : Turnover later middle new) :
    Turnover (deeds ++ later) old new := by
  rcases first with rfl | first
  · exact second.mono (List.sublist_append_right deeds later)
  · rcases second with rfl | second
    · exact .inr (first.trans (List.sublist_append_left deeds later))
    · have given := (List.sublist_append_left _ (middle.map Deed.created)).trans first
      have made := (List.sublist_append_right (middle.map Deed.destroyed) _).trans second
      exact .inr (given.append made)

omit [DecidableEq κ] in
/-- A slot whose pipes follow one another changes from the first to the last of them. -/
theorem turnover_of_succession (course : Succession old deeds new) : Turnover deeds old new := by
  induction course with
  | stay => exact .inl rfl
  | @created pipe _ _ _ ih =>
    have made : Turnover [.created pipe] [] [pipe] := .inr (List.Sublist.refl _)
    exact made.trans ih
  | @fed pipe _ _ _ ih => exact ih.mono (List.sublist_cons_self _ _)
  | @destroyed pipe _ _ _ ih =>
    have given : Turnover [.destroyed pipe] [pipe] [] := .inr (List.Sublist.refl _)
    exact given.trans ih

namespace Handled

theorem refl (journal : Journal κ) (olds : List (List κ)) : Handled journal journal olds olds where
  ledger := ⟨[], (List.append_nil journal).symm, .refl olds⟩
  accounts _ accounts := accounts

theorem of_eq (same : after = before) (olds : List (List κ)) : Handled before after olds olds := by
  subst same
  exact refl after olds

theorem trans (first : Handled before between olds middles)
    (second : Handled between after middles news) : Handled before after olds news where
  ledger := by
    obtain ⟨ledger, rfl, covers⟩ := first.ledger
    obtain ⟨later, rfl, behind⟩ := second.ledger
    refine ⟨ledger ++ later, ?_, covers.trans behind⟩
    rw [Ledger.journal_append, List.append_assoc]
  accounts others accounts := second.accounts others (first.accounts others accounts)

/-- What is done with some slots and then with others. -/
theorem append (first : Handled before between olds news)
    (second : Handled between after others mores) :
    Handled before after (olds ++ others) (news ++ mores) where
  ledger := by
    obtain ⟨ledger, rfl, covers⟩ := first.ledger
    obtain ⟨later, rfl, behind⟩ := second.ledger
    refine ⟨_, ?_, covers.append behind⟩
    rw [Ledger.journal_append, Ledger.journal_retag, List.append_assoc]
  accounts rest accounts := by
    have started : before.Accounts (olds.flatten ++ (others.flatten ++ rest)) := by
      rwa [List.flatten_append, List.append_assoc] at accounts
    have halfway : between.Accounts (others.flatten ++ (news.flatten ++ rest)) :=
      (first.accounts _ started).perm (List.perm_append_comm_assoc _ _ _)
    have ended : after.Accounts (news.flatten ++ (mores.flatten ++ rest)) :=
      (second.accounts _ halfway).perm (List.perm_append_comm_assoc _ _ _)
    rwa [List.flatten_append, List.append_assoc]

/-- What is done with some slots in the midst of others. -/
theorem within (handled : Handled before after olds news) (left right : List (List κ)) :
    Handled before after (left ++ (olds ++ right)) (left ++ (news ++ right)) :=
  (refl before left).append (handled.append (refl after right))

theorem created (fresh : .created pipe ∉ before) :
    Handled before (before ++ [.created pipe]) [[]] [[pipe]] where
  ledger := ⟨_, rfl, .single (.created (.stay _))⟩
  accounts _ accounts := accounts.create fresh

theorem fed (before : Journal κ) (pipe : κ) :
    Handled before (before ++ [.fed pipe]) [[pipe]] [[pipe]] where
  ledger := ⟨_, rfl, .single (.fed (.stay _))⟩
  accounts _ accounts := accounts.feed List.mem_cons_self

theorem destroyed (before : Journal κ) (pipe : κ) :
    Handled before (before ++ [.destroyed pipe]) [[pipe]] [[]] where
  ledger := ⟨_, rfl, .single (.destroyed (.stay _))⟩
  accounts _ accounts := accounts.destroy

end Handled
end Journal

open Journal (Handled)

variable [DecidableEq κ] {journal : σ → Journal κ} {registry : Registry σ κ}

/-- The pipe of the application that a pipe in use stands for, if it is one. -/
def LivePipe.handles : LivePipe κ → List κ
  | .builtIn _ _ _ => []
  | .hosted handle => [handle]

/-- The pipe of the application that a slot holds, if there is one. -/
def PipeSlot.held (slot : PipeSlot κ) : List κ := (slot.pipe.map LivePipe.handles).getD []

namespace PipeSlot

variable (keeps : registry.Keeps journal)
include keeps

theorem keep_handled (value : Value) (slot : PipeSlot κ) (state : σ) :
    Handled (journal state) (journal (slot.keep registry value state).2) [slot.held]
      [((slot.keep registry value state).1.map LivePipe.handles).getD []] := by
  obtain ⟨pipe, last, made⟩ := slot
  cases pipe with
  | none => exact .refl _ _
  | some pipe =>
    cases pipe with
    | builtIn pipe place transforms =>
      simp only [keep, Registry.supports, pure_bind]
      cases pipe.kind.supports value <;> exact .refl _ _
    | hosted handle =>
      have asked := keeps.supports handle value state
      simp only [keep, Registry.supports, Bind.bind, StateT.bind]
      generalize registry.hosted.supports handle value state = answered at asked ⊢
      obtain ⟨supported, between⟩ := answered
      cases supported with
      | true => exact .of_eq asked _
      | false =>
        have ended := keeps.destroys handle between
        rw [show journal between = journal state from asked] at ended
        change Handled _ (journal (registry.hosted.destroy handle between).2) _ _
        rw [ended]
        exact .destroyed _ handle

omit keeps [DecidableEq κ] in
/-- Makers are only asked, and the one that is chosen is one of them. -/
theorem firstFor_keeps (value : Value) (makers : List (PipeMaker σ κ))
    (asks : ∀ maker ∈ makers, ∀ state,
      journal (PipeMaker.supports maker value state).2 = journal state) (state : σ) :
    journal (PipeMaker.firstFor value makers state).2 = journal state ∧
      ∀ maker, (PipeMaker.firstFor value makers state).1 = some maker → maker ∈ makers := by
  induction makers generalizing state with
  | nil =>
    refine ⟨rfl, ?_⟩
    intro maker impossible
    cases impossible
  | cons maker makers ih =>
    obtain ⟨first, rest⟩ := List.forall_mem_cons.mp asks
    have asked := first state
    simp only [PipeMaker.firstFor, Bind.bind, StateT.bind]
    generalize maker.supports value state = answered at asked ⊢
    obtain ⟨supported, between⟩ := answered
    cases supported with
    | true =>
      refine ⟨asked, ?_⟩
      intro chosen same
      cases same
      exact List.mem_cons_self
    | false =>
      obtain ⟨kept, chosen⟩ := ih rest between
      exact ⟨kept.trans asked, fun other same => List.mem_cons_of_mem _ (chosen other same)⟩

theorem select_handled (name : String) (value : Value) (place : Place) (state : σ) :
    Handled (journal state) (journal (registry.select name value place state).2) [[]]
      [(registry.select name value place state).1.toOption.elim [] LivePipe.handles] := by
  simp only [Registry.select]
  cases known : Entries.get? registry.makers name with
  | none => exact .refl _ _
  | some makers =>
    have listed := Entries.mem_of_get? known
    obtain ⟨asked, chosen⟩ := firstFor_keeps value makers
      (fun maker member state => keeps.asks name makers listed maker member value state) state
    simp only [Bind.bind, StateT.bind]
    generalize PipeMaker.firstFor value makers state = answered at asked chosen ⊢
    obtain ⟨maker, between⟩ := answered
    cases maker with
    | none => exact .of_eq asked _
    | some maker =>
      have member := chosen maker rfl
      cases maker with
      | builtIn kind => exact .of_eq asked _
      | hosted supports create =>
        obtain ⟨fresh, made⟩ := keeps.creates name makers listed supports create member between
        rw [show journal between = journal state from asked] at fresh made
        change Handled _ (journal (create between).2) _ [[(create between).1]]
        rw [made]
        exact .created fresh

theorem feed_handled (pipe : LivePipe κ) (value : Value) (args : List Value) (slot : PipeSlot κ)
    (state : σ) :
    Handled (journal state) (journal (slot.feed registry pipe value args state).2) [pipe.handles]
      [(slot.feed registry pipe value args state).1.2.held] := by
  cases pipe with
  | builtIn pipe place transforms =>
    simp only [feed, Registry.transform, pure_bind]
    generalize pipe.transform (.part transforms place) value = transformed
    obtain ⟨result, pipe⟩ := transformed
    rcases result with cause | made | _ <;> exact .refl _ _
  | hosted handle =>
    have fed := keeps.transforms handle value args state
    simp only [feed, Registry.transform, Bind.bind, StateT.bind]
    generalize registry.hosted.transform handle value args state = transformed at fed ⊢
    obtain ⟨result, after⟩ := transformed
    change journal after = _ at fed
    rcases result with cause | made | _ <;>
      change Handled _ (journal after) [[handle]] [[handle]] <;>
      rw [fed] <;>
      exact .fed _ handle

/-- An application of a slot gives the pipe of the slot up before it makes another one. -/
theorem apply_handled (place : Place) (name : String) (value : Value) (args : List Value)
    (slot : PipeSlot κ) (state : σ) :
    Handled (journal state) (journal (slot.apply registry place name value args state).2)
      [slot.held] [(slot.apply registry place name value args state).1.2.held] := by
  have kept := keep_handled keeps value slot state
  simp only [apply, Bind.bind, StateT.bind]
  generalize slot.keep registry value state = stayed at kept ⊢
  obtain ⟨pipe, between⟩ := stayed
  cases pipe with
  | some pipe => exact kept.trans (feed_handled keeps pipe value args slot between)
  | none =>
    refine kept.trans ?_
    have selected := select_handled keeps name value (.part slot.made place) between
    simp only [StateT.bind]
    generalize registry.select name value (.part slot.made place) between = chosen at selected ⊢
    obtain ⟨result, state⟩ := chosen
    cases result with
    | error cause => exact selected
    | ok pipe => exact selected.trans (feed_handled keeps pipe value args _ state)

theorem clear_handled (slot : PipeSlot κ) (state : σ) :
    Handled (journal state) (journal (slot.clear registry state).2) [slot.held]
        [(slot.clear registry state).1.held] ∧
      (slot.clear registry state).1.held = [] := by
  obtain ⟨pipe, last, made⟩ := slot
  cases pipe with
  | none => exact ⟨.refl _ _, rfl⟩
  | some pipe =>
    refine ⟨?_, rfl⟩
    cases pipe with
    | builtIn pipe place transforms => exact .refl _ _
    | hosted handle =>
      change Handled _ (journal (registry.hosted.destroy handle state).2) [[handle]] [[]]
      rw [keeps.destroys handle state]
      exact .destroyed _ handle

theorem clearAll_handled (slots : List (PipeSlot κ)) (state : σ) :
    Handled (journal state) (journal (clearAll registry slots state).2) (slots.map held)
        ((clearAll registry slots state).1.map held) ∧
      ∀ slot ∈ (clearAll registry slots state).1, slot.held = [] := by
  induction slots generalizing state with
  | nil =>
    refine ⟨.refl _ _, ?_⟩
    intro slot impossible
    cases impossible
  | cons slot slots ih =>
    obtain ⟨cleared, empty⟩ := clear_handled keeps slot state
    simp only [clearAll, Bind.bind, StateT.bind]
    generalize slot.clear registry state = first at cleared empty ⊢
    obtain ⟨slot', between⟩ := first
    obtain ⟨others, empties⟩ := ih between
    refine ⟨cleared.append others, ?_⟩
    exact List.forall_mem_cons.mpr ⟨empty, empties⟩

end PipeSlot

/-- States of an application with the slots of an expression, between which the pipes of the slots are
accounted for. -/
def PipeSlot.Handles (journal : σ → Journal κ) (first second : σ × List (PipeSlot κ)) : Prop :=
  Handled (journal first.1) (journal second.1) (first.2.map held) (second.2.map held)

namespace PipeSlot

instance : Std.Refl (Handles journal) where
  refl world := .refl (journal world.1) _

instance : Trans (Handles journal) (Handles journal) (Handles journal) where
  trans first second := Handled.trans first second

theorem host_handled (keeps : registry.Keeps journal) (place : Place) (index : Nat) (name : String)
    (value : Value) (args : List Value) :
    Stateful.Along (Handles journal) ((host registry place).apply index name value args) := by
  rintro ⟨state, slots⟩
  simp only [host]
  cases found : slots[index]? with
  | none => exact Std.Refl.refl _
  | some slot =>
    have applied := apply_handled keeps (.part index place) name value args slot state
    obtain ⟨bound, rfl⟩ := List.getElem?_eq_some_iff.mp found
    have before : slots.map held = (slots.take index).map held ++
        ([slots[index].held] ++ (slots.drop (index + 1)).map held) := by
      rw [List.singleton_append, ← List.map_cons, ← List.drop_eq_getElem_cons bound,
        ← List.map_append, List.take_append_drop]
    have afterwards (slot' : PipeSlot κ) : (slots.set index slot').map held =
        (slots.take index).map held ++ ([slot'.held] ++ (slots.drop (index + 1)).map held) := by
      rw [List.set_eq_take_append_cons_drop, if_pos bound, List.map_append]
      rfl
    simp only []
    generalize slots[index].apply registry (.part index place) name value args state = ended
      at applied ⊢
    obtain ⟨⟨result, slot'⟩, after⟩ := ended
    have whole : Handles journal (state, slots) (after, slots.set index slot') := by
      rw [Handles, before, afterwards]
      exact applied.within _ _
    cases result <;> exact whole

end PipeSlot
end ChangeWatch
