import ChangeWatch.Detector.Check
import Mathlib.Data.List.Nodup
import Mathlib.Data.List.Perm.Lattice

/-!
Journals of pipes: which pipes an application made, fed and destroyed, in the order in which it did so.
A journal is in order for the pipes in use when each of them was made once and is fed since, and every
other pipe was destroyed once, behind everything else that was done with it. A ledger says in addition
which slot each deed was done in, and the deeds of a slot follow the pipes that it holds.
-/
namespace ChangeWatch

/-- What an application does with a pipe. -/
inductive Deed (κ : Type) where
  | created (pipe : κ)
  | fed (pipe : κ)
  | destroyed (pipe : κ)
deriving DecidableEq, Repr

def Deed.pipe : Deed κ → κ
  | created pipe | fed pipe | destroyed pipe => pipe

abbrev Journal (κ : Type) := List (Deed κ)

namespace Journal

variable [DecidableEq κ] {journal later : Journal κ} {held : List κ} {pipe other : κ}

/-- What was done with one pipe. -/
def about (journal : Journal κ) (pipe : κ) : Journal κ :=
  journal.filter fun deed => deed.pipe = pipe

/-- Made, and then only fed. -/
def Alive (journal : Journal κ) (pipe : κ) : Prop :=
  ∃ meals, journal.about pipe = .created pipe :: List.replicate meals (.fed pipe)

/-- Made, fed, and in the end destroyed. -/
def Ended (journal : Journal κ) (pipe : κ) : Prop :=
  ∃ meals, journal.about pipe =
    .created pipe :: (List.replicate meals (.fed pipe) ++ [.destroyed pipe])

/-- The journal of an application whose pipes in use are the given ones, each in one place. -/
structure Accounts (journal : Journal κ) (held : List κ) : Prop where
  distinct : held.Nodup
  alive : ∀ pipe ∈ held, journal.Alive pipe
  others : ∀ pipe ∉ held, journal.about pipe = [] ∨ journal.Ended pipe

theorem about_append (journal later : Journal κ) (pipe : κ) :
    (journal ++ later : Journal κ).about pipe = journal.about pipe ++ later.about pipe :=
  List.filter_append _ _

theorem about_deed (deed : Deed κ) (pipe : κ) :
    about [deed] pipe = if deed.pipe = pipe then [deed] else [] := by
  by_cases same : deed.pipe = pipe <;> simp [about, same]

theorem created_mem_of_about {rest : Journal κ}
    (made : journal.about pipe = .created pipe :: rest) : .created pipe ∈ journal := by
  have listed : .created pipe ∈ journal.about pipe := by
    rw [made]
    exact List.mem_cons_self
  exact (List.mem_filter.mp listed).1

theorem Alive.created (alive : journal.Alive pipe) : .created pipe ∈ journal := by
  obtain ⟨meals, made⟩ := alive
  exact created_mem_of_about made

theorem Ended.created (ended : journal.Ended pipe) : .created pipe ∈ journal := by
  obtain ⟨meals, made⟩ := ended
  exact created_mem_of_about made

namespace Accounts

theorem nil : Accounts ([] : Journal κ) [] where
  distinct := List.nodup_nil
  alive _ member := nomatch member
  others _ _ := .inl rfl

theorem perm {held held' : List κ} (accounts : journal.Accounts held) (same : held.Perm held') :
    journal.Accounts held' where
  distinct := same.nodup_iff.mp accounts.distinct
  alive pipe member := accounts.alive pipe (same.mem_iff.mpr member)
  others pipe absent := accounts.others pipe fun member => absent (same.mem_iff.mp member)

/-- A pipe that was destroyed is in no use any more. -/
theorem ended_of_destroyed (accounts : journal.Accounts held) (gone : .destroyed pipe ∈ journal) :
    journal.Ended pipe := by
  have listed : .destroyed pipe ∈ journal.about pipe := by
    refine List.mem_filter.mpr ⟨gone, ?_⟩
    exact decide_eq_true rfl
  by_cases used : pipe ∈ held
  · obtain ⟨meals, made⟩ := accounts.alive pipe used
    rw [made] at listed
    simp at listed
  · rcases accounts.others pipe used with nothing | ended
    · rw [nothing] at listed
      cases listed
    · exact ended

/-- A deed leaves the accounts of other pipes alone. -/
theorem keep (accounts : journal.Accounts held) (deed : Deed κ) (different : deed.pipe ≠ pipe) :
    (pipe ∈ held → (journal ++ [deed] : Journal κ).Alive pipe) ∧
      (pipe ∉ held → (journal ++ [deed] : Journal κ).about pipe = [] ∨
        (journal ++ [deed] : Journal κ).Ended pipe) := by
  have same : (journal ++ [deed] : Journal κ).about pipe = journal.about pipe := by
    rw [about_append, about_deed, if_neg different, List.append_nil]
  simp only [Alive, Ended, same]
  exact ⟨accounts.alive pipe, accounts.others pipe⟩

/-- A new pipe is in use. -/
theorem create (accounts : journal.Accounts held) (fresh : .created pipe ∉ journal) :
    (journal ++ [.created pipe] : Journal κ).Accounts (pipe :: held) := by
  have unused : pipe ∉ held := fun member => fresh (accounts.alive pipe member).created
  have nothing : journal.about pipe = [] := by
    rcases accounts.others pipe unused with nothing | ended
    · exact nothing
    · exact absurd ended.created fresh
  refine ⟨List.nodup_cons.mpr ⟨unused, accounts.distinct⟩, ?_, ?_⟩
  · intro other member
    rcases List.mem_cons.mp member with rfl | old
    · refine ⟨0, ?_⟩
      rw [about_append, about_deed, Deed.pipe, if_pos rfl, nothing]
      rfl
    · have different : pipe ≠ other := by
        rintro rfl
        exact unused old
      exact (accounts.keep (.created pipe) different).1 old
  · intro other absent
    obtain ⟨different, absent⟩ := not_or.mp (mt List.mem_cons.mpr absent)
    exact (accounts.keep (.created pipe) (Ne.symm different)).2 absent

/-- A pipe in use may be fed. -/
theorem feed (accounts : journal.Accounts held) (used : pipe ∈ held) :
    (journal ++ [.fed pipe] : Journal κ).Accounts held := by
  refine ⟨accounts.distinct, ?_, ?_⟩
  · intro other member
    by_cases same : pipe = other
    · subst same
      obtain ⟨meals, made⟩ := accounts.alive pipe used
      refine ⟨meals + 1, ?_⟩
      rw [about_append, about_deed, Deed.pipe, if_pos rfl, made, List.replicate_succ']
      rfl
    · exact (accounts.keep (.fed pipe) same).1 member
  · intro other absent
    have different : pipe ≠ other := by
      rintro rfl
      exact absent used
    exact (accounts.keep (.fed pipe) different).2 absent

/-- A pipe that is destroyed is not in use any more. -/
theorem destroy (accounts : journal.Accounts (pipe :: held)) :
    (journal ++ [.destroyed pipe] : Journal κ).Accounts held := by
  obtain ⟨unused, distinct⟩ := List.nodup_cons.mp accounts.distinct
  refine ⟨distinct, ?_, ?_⟩
  · intro other member
    have different : pipe ≠ other := by
      rintro rfl
      exact unused member
    exact (accounts.keep (.destroyed pipe) different).1 (List.mem_cons_of_mem pipe member)
  · intro other absent
    by_cases same : pipe = other
    · subst same
      obtain ⟨meals, made⟩ := accounts.alive pipe List.mem_cons_self
      refine .inr ⟨meals, ?_⟩
      rw [about_append, about_deed, Deed.pipe, if_pos rfl, made]
      rfl
    · refine (accounts.keep (.destroyed pipe) same).2 ?_
      intro member
      rcases List.mem_cons.mp member with equal | old
      · exact same equal.symm
      · exact absent old

end Accounts
end Journal

/-- What becomes of a slot, from what it holds before some deeds to what it holds behind them. A pipe is
made for an empty slot and fed in the slot that holds it, and before another one is made it is
destroyed. -/
inductive Succession : List κ → Journal κ → List κ → Prop where
  | stay (held : List κ) : Succession held [] held
  | created {pipe : κ} {deeds : Journal κ} {held : List κ} (rest : Succession [pipe] deeds held) :
      Succession [] (.created pipe :: deeds) held
  | fed {pipe : κ} {deeds : Journal κ} {held : List κ} (rest : Succession [pipe] deeds held) :
      Succession [pipe] (.fed pipe :: deeds) held
  | destroyed {pipe : κ} {deeds : Journal κ} {held : List κ} (rest : Succession [] deeds held) :
      Succession [pipe] (.destroyed pipe :: deeds) held

namespace Succession

variable {old middle new : List κ} {deeds later : Journal κ}

theorem trans (first : Succession old deeds middle) (second : Succession middle later new) :
    Succession old (deeds ++ later) new := by
  induction first with
  | stay => exact second
  | created _ ih => exact .created (ih second)
  | fed _ ih => exact .fed (ih second)
  | destroyed _ ih => exact .destroyed (ih second)

/-- A slot that is empty in the end has destroyed the pipe that it held. -/
theorem destroyed_of_empty {pipe : κ} (course : Succession old deeds []) (holds : pipe ∈ old) :
    .destroyed pipe ∈ deeds := by
  generalize left : ([] : List κ) = new at course
  induction course with
  | stay =>
    rw [← left] at holds
    cases holds
  | created => cases holds
  | fed _ ih => exact List.mem_cons_of_mem _ (ih holds left)
  | destroyed =>
    cases List.mem_singleton.mp holds
    exact List.mem_cons_self

end Succession

/-- A journal in which every deed has the slot that it was done in. -/
abbrev Ledger (ι κ : Type) := List (ι × Deed κ)

namespace Ledger

variable {ι ι' : Type} {ledger later : Ledger ι κ} {slot : ι}

def journal (ledger : Ledger ι κ) : Journal κ := ledger.map Prod.snd

/-- Slots under other names. -/
def retag (name : ι → ι') (ledger : Ledger ι κ) : Ledger ι' κ := ledger.map (Prod.map name id)

@[simp] theorem journal_nil : journal ([] : Ledger ι κ) = [] := rfl

@[simp] theorem journal_append (ledger later : Ledger ι κ) :
    journal (ledger ++ later) = ledger.journal ++ later.journal :=
  List.map_append

@[simp] theorem journal_retag (name : ι → ι') (ledger : Ledger ι κ) :
    (ledger.retag name).journal = ledger.journal := by
  rw [retag, journal, List.map_map]
  rfl

variable [DecidableEq ι] [DecidableEq ι']

/-- What was done in one slot. -/
def of (ledger : Ledger ι κ) (slot : ι) : Journal κ := journal (ledger.filter fun deed => deed.1 = slot)

@[simp] theorem of_append (ledger later : Ledger ι κ) (slot : ι) :
    of (ledger ++ later) slot = ledger.of slot ++ later.of slot := by
  rw [of, List.filter_append, journal_append]
  rfl

theorem of_sublist (ledger : Ledger ι κ) (slot : ι) : (ledger.of slot).Sublist ledger.journal :=
  List.filter_sublist.map Prod.snd

theorem of_eq_nil (absent : ∀ deed ∈ ledger, deed.1 ≠ slot) : ledger.of slot = [] := by
  have nothing : (ledger.filter fun deed => deed.1 = slot) = [] := by
    simpa [List.filter_eq_nil_iff] using absent
  rw [of, nothing, journal_nil]

theorem of_retag {name : ι → ι'} (apart : name.Injective) (ledger : Ledger ι κ) (slot : ι) :
    (ledger.retag name).of (name slot) = ledger.of slot := by
  have same : (fun deed : ι × Deed κ => decide (name deed.1 = name slot)) =
      fun deed => decide (deed.1 = slot) := by
    funext deed
    exact decide_eq_decide.mpr apart.eq_iff
  rw [of, retag, List.filter_map]
  exact (journal_retag name _).trans (congrArg (fun kept => journal (ledger.filter kept)) same)

omit [DecidableEq ι] in
theorem of_retag_of_ne {name : ι → ι'} {other : ι'} (different : ∀ slot, name slot ≠ other)
    (ledger : Ledger ι κ) : (ledger.retag name).of other = [] := by
  refine of_eq_nil ?_
  intro deed member
  obtain ⟨given, -, rfl⟩ := List.mem_map.mp member
  exact different given.1

end Ledger

/-- A ledger of some slots in a row, from what they hold before it to what they hold behind it. -/
structure Ledger.Covers (ledger : Ledger Nat κ) (olds news : List (List κ)) : Prop where
  length : news.length = olds.length
  bounded : ∀ deed ∈ ledger, deed.1 < olds.length
  course : ∀ index,
    Succession (olds[index]?.getD []) (ledger.of index) (news[index]?.getD [])

namespace Ledger.Covers

variable {ledger later : Ledger Nat κ} {olds middles news others mores : List (List κ)}

theorem refl (olds : List (List κ)) : Covers [] olds olds where
  length := rfl
  bounded _ member := nomatch member
  course _ := .stay _

theorem trans (first : Covers ledger olds middles) (second : Covers later middles news) :
    Covers (ledger ++ later) olds news where
  length := second.length.trans first.length
  bounded deed member := by
    rcases List.mem_append.mp member with before | behind
    · exact first.bounded deed before
    · exact first.length ▸ second.bounded deed behind
  course index := by
    rw [of_append]
    exact (first.course index).trans (second.course index)

/-- One deed in the only slot. -/
theorem single {deed : Deed κ} {old new : List κ} (course : Succession old [deed] new) :
    Covers [(0, deed)] [old] [new] where
  length := rfl
  bounded := by
    intro other member
    cases List.mem_singleton.mp member
    exact Nat.one_pos
  course index := by
    cases index with
    | zero => exact course
    | succ index => exact .stay _

/-- Slots in a row with more slots behind them. -/
theorem append (first : Covers ledger olds news) (second : Covers later others mores) :
    Covers (ledger ++ later.retag (olds.length + ·)) (olds ++ others) (news ++ mores) where
  length := by rw [List.length_append, List.length_append, first.length, second.length]
  bounded deed member := by
    rw [List.length_append]
    rcases List.mem_append.mp member with before | behind
    · exact Nat.lt_add_right _ (first.bounded deed before)
    · obtain ⟨given, there, rfl⟩ := List.mem_map.mp behind
      exact Nat.add_lt_add_left (second.bounded given there) _
  course index := by
    rw [of_append]
    by_cases inside : index < olds.length
    · have nothing : (later.retag (olds.length + ·)).of index = [] :=
        of_retag_of_ne (fun slot => by omega) later
      rw [nothing, List.append_nil, List.getElem?_append_left inside,
        List.getElem?_append_left (first.length ▸ inside)]
      exact first.course index
    · obtain ⟨more, rfl⟩ := Nat.exists_eq_add_of_le (Nat.le_of_not_lt inside)
      have nothing : ledger.of (olds.length + more) = [] :=
        of_eq_nil fun deed member => by
          have bound := first.bounded deed member
          omega
      have apart : Function.Injective (olds.length + ·) := fun _ _ => Nat.add_left_cancel
      have renamed := of_retag apart later more
      rw [nothing, List.nil_append, renamed, List.getElem?_append_right (Nat.le_add_right _ _),
        List.getElem?_append_right (first.length ▸ Nat.le_add_right _ _), first.length,
        Nat.add_sub_cancel_left]
      exact second.course more

end Ledger.Covers

/-- A registry whose application keeps a journal of its pipes. Every pipe that is made is a new one,
and only making, feeding and destroying pipes is written down, wherever else the state goes and
whatever makers and pipes answer. Built-in pipes have nothing to be told at their end. -/
structure Registry.Keeps (registry : Registry σ κ) (journal : σ → Journal κ) : Prop where
  asks : ∀ name makers, (name, makers) ∈ registry.makers → ∀ maker ∈ makers, ∀ value state,
    journal (PipeMaker.supports maker value state).2 = journal state
  creates : ∀ name makers, (name, makers) ∈ registry.makers → ∀ supports create,
    .hosted supports create ∈ makers → ∀ state,
      .created (create state).1 ∉ journal state ∧
        journal (create state).2 = journal state ++ [.created (create state).1]
  supports : ∀ pipe value state,
    journal (registry.hosted.supports pipe value state).2 = journal state
  transforms : ∀ pipe value args state,
    journal (registry.hosted.transform pipe value args state).2 = journal state ++ [.fed pipe]
  destroys : ∀ pipe state,
    journal (registry.hosted.destroy pipe state).2 = journal state ++ [.destroyed pipe]

/-- An application whose objects and functions leave the journal of its pipes alone. -/
structure Host.Keeps (host : Host σ) (journal : σ → Journal κ) : Prop where
  call : ∀ f args state, journal (host.call f args state).2 = journal state
  readField : ∀ ref name state, journal (host.readField ref name state).2 = journal state
  readKeyed : ∀ ref key state, journal (host.readKeyed ref key state).2 = journal state
  invoke : ∀ ref name args state, journal (host.invoke ref name args state).2 = journal state

def Dispatcher.Keeps (dispatcher : Dispatcher σ) (journal : σ → Journal κ) : Prop :=
  ∀ group changes state, journal (dispatcher group changes state).2 = journal state

end ChangeWatch
