import ChangeWatch.Proofs.Forest.Payloads
import ChangeWatch.Proofs.Forest.Reached
import ChangeWatch.Proofs.Lifetimes.Detectors
import Mathlib.Data.List.MinMax

/-!
The lives of the pipes of a tree. Whatever is done with a tree and however it fails, a pipe is in one
slot from when it is made until it is destroyed, and slots change their pipes in order. So no pipe is
left over when the tree is given up.
-/
namespace ChangeWatch

open Forest (Linked payloadOf payloads)
open Journal (Handled Turnover)
open Stateful (Along)

namespace Tree

/-- What the slots of all detectors hold. -/
def held (tree : Tree σ κ) : List κ := ((payloads tree).flatMap Detector.holdings).flatten

/-- What a slot of a detector holds: nothing, if it is not there. -/
def slotAt (tree : Tree σ κ) (id : NodeId) (index : Nat) : List κ :=
  ((payloadOf tree id).bind fun detector => detector.holdings[index]?).getD []

/-- Slots without pipes hold nothing, and so do others. -/
theorem slot_of_empty {olds : List (List κ)} (empty : olds.flatten = []) (index : Nat) :
    olds[index]?.getD [] = [] := by
  cases looked : olds[index]? with
  | none => rfl
  | some old => exact List.flatten_eq_nil_iff.mp empty old (List.mem_of_getElem? looked)

variable [DecidableEq κ] {journal : σ → Journal κ} {host : Host σ} {tree next : Tree σ κ}
  {id : NodeId}

/-- All pipes of the tree are in a journal. -/
def Keeps (journal : σ → Journal κ) (tree : Tree σ κ) : Prop :=
  ∀ detector ∈ payloads tree, detector.Keeps journal

/-- A ledger of all slots of a tree, from what they hold in one tree to what they hold in another. -/
def Covers (ledger : Ledger (NodeId × Nat) κ) (tree next : Tree σ κ) : Prop :=
  ∀ id index, Succession (slotAt tree id index) (ledger.of (id, index)) (slotAt next id index)

/-- Worlds between which all pipes are accounted for. -/
structure Handles (journal : σ → Journal κ) (world next : σ × Tree σ κ) : Prop where
  keeps : Keeps journal next.2
  ledger : ∃ ledger : Ledger (NodeId × Nat) κ,
    journal next.1 = journal world.1 ++ ledger.journal ∧ Covers ledger world.2 next.2
  accounts : (journal world.1).Accounts (held world.2) → (journal next.1).Accounts (held next.2)

/-- From a tree whose pipes are in the journal, all of them are accounted for. -/
def Orderly (journal : σ → Journal κ) (world next : σ × Tree σ κ) : Prop :=
  Keeps journal world.2 → Handles journal world next

omit [DecidableEq κ] in
/-- Nothing is done while all slots hold what they held. -/
theorem covers_nil (same : ∀ id index, slotAt next id index = slotAt tree id index) :
    Covers ([] : Ledger (NodeId × Nat) κ) tree next := by
  intro id index
  rw [same]
  exact .stay _

theorem Handles.refl {world : σ × Tree σ κ} (keeps : Keeps journal world.2) :
    Handles journal world world where
  keeps := keeps
  ledger := ⟨[], (List.append_nil _).symm, covers_nil fun _ _ => rfl⟩
  accounts accounts := accounts

theorem Handles.trans {first second third : σ × Tree σ κ} (before : Handles journal first second)
    (behind : Handles journal second third) : Handles journal first third where
  keeps := behind.keeps
  ledger := by
    obtain ⟨ledger, grown, covers⟩ := before.ledger
    obtain ⟨later, grown', covers'⟩ := behind.ledger
    refine ⟨ledger ++ later, ?_, ?_⟩
    · rw [grown', grown, Ledger.journal_append, List.append_assoc]
    · intro id index
      rw [Ledger.of_append]
      exact (covers id index).trans (covers' id index)
  accounts accounts := behind.accounts (before.accounts accounts)

instance : Std.Refl (Orderly (σ := σ) (κ := κ) journal) where
  refl _ keeps := .refl keeps

instance : Trans (Orderly (σ := σ) (κ := κ) journal) (Orderly journal) (Orderly journal) where
  trans first second keeps :=
    have before := first keeps
    before.trans (second before.keeps)

omit [DecidableEq κ] in
/-- What is done in the slots of one detector is done in no others. -/
theorem of_other_detector {other : NodeId} (different : other ≠ id) (ledger : Ledger Nat κ)
    (index : Nat) : (ledger.retag (id, ·)).of (other, index) = [] := by
  refine Ledger.of_retag_of_ne ?_ ledger
  intro slot same
  exact different (Prod.mk.inj same).1.symm

omit [DecidableEq κ] in
/-- A ledger of the slots of one detector is a ledger of the tree. -/
theorem covers_of_detector {ledger : Ledger Nat κ} {olds news : List (List κ)}
    (covers : ledger.Covers olds news)
    (before : ∀ index, slotAt tree id index = olds[index]?.getD [])
    (behind : ∀ index, slotAt next id index = news[index]?.getD [])
    (others : ∀ other ≠ id, ∀ index, slotAt next other index = slotAt tree other index) :
    Covers (ledger.retag (id, ·)) tree next := by
  intro other index
  by_cases here : other = id
  · subst here
    rw [Ledger.of_retag (Prod.mk_right_injective other), before, behind]
    exact covers.course index
  · rw [of_other_detector here, others other here]
    exact .stay _

/-- An operation on one detector that accounts for its pipes accounts for all pipes of the tree. -/
theorem onDetector_orderly (id : NodeId) {action : Detector σ κ → StateM σ (α × Detector σ κ)}
    (handled : ∀ detector : Detector σ κ, detector.Keeps journal → ∀ state,
      Handled (journal state) (journal (action detector state).2) detector.holdings
          (action detector state).1.2.holdings ∧
        (action detector state).1.2.Keeps journal) :
    Along (Orderly journal) (TreeM.onDetector id action) := by
  refine onDetector_along id fun state tree node found keeps => ?_
  have here : payloadOf tree id = some node.payload := by
    rw [payloadOf, found]
    rfl
  obtain ⟨acted, kept⟩ := handled node.payload (keeps _ (Forest.payloadOf_mem here)) state
  generalize action node.payload state = ended at acted kept ⊢
  obtain ⟨⟨value, detector⟩, after⟩ := ended
  obtain ⟨left, right, before, behind⟩ :=
    Forest.payloads_modify found fun node => { node with payload := detector }
  refine ⟨?_, ?_, ?_⟩
  · intro other member
    rw [behind] at member
    rcases List.mem_append.mp member with old | rest
    · exact keeps other (before ▸ List.mem_append_left _ old)
    · rcases List.mem_cons.mp rest with rfl | old
      · exact kept
      · exact keeps other (before ▸ List.mem_append_right _ (List.mem_cons_of_mem _ old))
  · obtain ⟨ledger, grown, covers⟩ := acted.ledger
    refine ⟨ledger.retag (id, ·), ?_, covers_of_detector covers ?_ ?_ ?_⟩
    · rw [Ledger.journal_retag]
      exact grown
    · intro index
      rw [slotAt, here, Option.bind_some]
    · intro index
      rw [slotAt, payloadOf, Forest.node?_modify, if_pos rfl, found]
      rfl
    · intro other different index
      rw [slotAt, payloadOf, Forest.node?_modify, if_neg different]
      rfl
  · intro accounts
    have all := acted.within (left.flatMap Detector.holdings) (right.flatMap Detector.holdings)
    have ended := all.accounts []
    simp only [held, before, behind, List.flatMap_append, List.flatMap_cons, List.append_nil]
      at accounts ended ⊢
    exact ended accounts

theorem mode_orderly (id : NodeId) (mode : Mode) :
    Along (Orderly journal) (setMode (σ := σ) (κ := κ) id mode) :=
  onDetector_orderly id fun _ keeps _ => ⟨.refl _ _, keeps.registry, keeps.dispatcher⟩

theorem hydrate_orderly (id : NodeId) (context : Value) (locals : Locals) :
    Along (Orderly journal) (hydrate (σ := σ) (κ := κ) id context locals) :=
  onDetector_orderly id fun _ keeps _ => ⟨.refl _ _, keeps.registry, keeps.dispatcher⟩

theorem dehydrate_orderly (id : NodeId) :
    Along (Orderly journal) (dehydrate (σ := σ) (κ := κ) id) :=
  onDetector_orderly id fun _ keeps state =>
    ⟨(Detector.dehydrate_handled keeps state).1, keeps.registry, keeps.dispatcher⟩

theorem checkNode_orderly (host_keeps : host.Keeps journal) (purpose : Purpose) (id : NodeId) :
    Along (Orderly journal) (checkNode (κ := κ) host purpose id) :=
  checkNode_along (onDetector_orderly id fun _ keeps state =>
    ⟨Detector.check_handled host_keeps keeps purpose state, Detector.check_keeps keeps purpose state⟩)

theorem pass_orderly (host_keeps : host.Keeps journal) (purpose : Purpose) (id : NodeId) :
    Along (Orderly journal) (pass (κ := κ) host purpose id) := by
  intro world
  exact visit_along (checkNode_orderly host_keeps purpose) (fun id => mark_along (mode_orderly id))
    _ id world

/-- A change of links leaves the pipes alone. -/
theorem orderly_of_same (state : σ) (same : Forest.SamePayloads tree next) :
    Orderly journal (state, tree) (state, next) := by
  intro keeps
  refine ⟨?_, ⟨[], (List.append_nil _).symm, covers_nil ?_⟩, ?_⟩
  · intro detector member
    rw [same.payloads] at member
    exact keeps detector member
  · intro id index
    rw [slotAt, slotAt, same.payloadOf]
  · intro accounts
    simp only [held, same.payloads] at accounts ⊢
    exact accounts

/-- A new detector brings no pipes. -/
theorem insert_orderly (linked : Linked tree []) {detector : Detector σ κ}
    (detector_keeps : detector.Keeps journal) (empty : detector.holdings.flatten = []) (state : σ) :
    Orderly journal (state, tree) (state, (Forest.insert tree detector).2) := by
  intro keeps
  obtain ⟨left, right, before, behind⟩ := Forest.payloads_insert linked detector
  refine ⟨?_, ⟨[], (List.append_nil _).symm, covers_nil ?_⟩, ?_⟩
  · intro other member
    rw [behind] at member
    rcases List.mem_append.mp member with old | rest
    · exact keeps other (before ▸ List.mem_append_left _ old)
    · rcases List.mem_cons.mp rest with rfl | old
      · exact detector_keeps
      · exact keeps other (before ▸ List.mem_append_right _ old)
  · intro id index
    simp only [slotAt, payloadOf, Forest.node?_insert linked]
    split
    · rename_i same
      rw [same, Forest.not_contains_insert linked]
      exact slot_of_empty empty index
    · rfl
  · intro accounts
    simp only [held, before, behind, List.flatMap_append, List.flatMap_cons, List.flatten_append,
      empty, List.nil_append] at accounts ⊢
    exact accounts

/-- Destroying detectors one after the other destroys what each of them holds, in its own slots. -/
theorem dehydrateAll_covers (gone : List (NodeId × Detector σ κ)) (distinct : (gone.map Prod.fst).Nodup)
    (keeps : ∀ node ∈ gone, node.2.Keeps journal) (state : σ) :
    ∃ ledger : Ledger (NodeId × Nat) κ,
      journal (dehydrateAll (gone.map Prod.snd) state).2 = journal state ++ ledger.journal ∧
      (∀ node ∈ gone, ∀ index,
        Succession (node.2.holdings[index]?.getD []) (ledger.of (node.1, index)) []) ∧
      ∀ id ∉ gone.map Prod.fst, ∀ index, ledger.of (id, index) = [] := by
  induction gone generalizing state with
  | nil => exact ⟨[], (List.append_nil _).symm, nofun, fun _ _ _ => rfl⟩
  | cons node gone ih =>
    obtain ⟨id, detector⟩ := node
    obtain ⟨unused, distinct⟩ := List.nodup_cons.mp distinct
    obtain ⟨first, rest⟩ := List.forall_mem_cons.mp keeps
    obtain ⟨handled, empty⟩ := Detector.dehydrate_handled first state
    simp only [List.map_cons, dehydrateAll, Bind.bind, StateT.bind]
    generalize detector.dehydrate state = ended at handled empty ⊢
    obtain ⟨detector', between⟩ := ended
    obtain ⟨ledger, grown, covers⟩ := handled.ledger
    obtain ⟨later, grown', covers', others⟩ := ih distinct rest between
    refine ⟨ledger.retag (id, ·) ++ later, ?_, ?_, ?_⟩
    · rw [Ledger.journal_append, Ledger.journal_retag, ← List.append_assoc, ← grown]
      exact grown'
    · intro other member index
      rw [Ledger.of_append]
      rcases List.mem_cons.mp member with rfl | among
      · have course := covers.course index
        rw [slot_of_empty empty] at course
        rw [others id unused, List.append_nil, Ledger.of_retag (Prod.mk_right_injective id)]
        exact course
      · have different : other.1 ≠ id := by
          rintro rfl
          exact unused (List.mem_map.mpr ⟨other, among, rfl⟩)
        rw [of_other_detector different]
        exact covers' other among index
    · intro other absent index
      obtain ⟨different, absent⟩ := not_or.mp (mt List.mem_cons.mpr absent)
      rw [Ledger.of_append, of_other_detector different, others other absent]
      rfl

/-- The pipes of destroyed detectors are destroyed. -/
theorem destroy_orderly {given : List (Detector σ κ)} (back : Forest.GivesBack tree given next)
    (state : σ) : Orderly journal (state, tree) ((dehydrateAll given state).2, next) := by
  intro keeps
  have given_keep : ∀ detector ∈ given, detector.Keeps journal := by
    intro detector member
    exact keeps detector (back.payloads.mem_iff.mp (List.mem_append_left _ member))
  refine ⟨?_, ?_, ?_⟩
  · intro detector member
    exact keeps detector (back.payloads.mem_iff.mp (List.mem_append_right _ member))
  · obtain ⟨gone, rfl, distinct, held, left⟩ := back.nodes
    obtain ⟨ledger, grown, ended, others⟩ := dehydrateAll_covers gone distinct
      (fun node member => given_keep node.2 (List.mem_map_of_mem member)) state
    refine ⟨ledger, grown, ?_⟩
    intro id index
    by_cases destroyed : id ∈ gone.map Prod.fst
    · obtain ⟨node, member, rfl⟩ := List.mem_map.mp destroyed
      rw [slotAt, slotAt, left, if_pos destroyed, held node member]
      exact ended node member index
    · rw [slotAt, slotAt, left, if_neg destroyed, others id destroyed]
      exact .stay _
  · intro accounts
    have split : (held tree).Perm ((given.flatMap Detector.holdings).flatten ++ held next) := by
      rw [held, held, ← List.flatten_append, ← List.flatMap_append]
      exact (back.payloads.symm.flatMap_right _).flatten
    obtain ⟨emptied, empty, handled⟩ := dehydrateAll_handled given given_keep state
    have ended := handled.accounts (held next) (accounts.perm split)
    rwa [empty, List.nil_append] at ended

end Tree

variable [DecidableEq κ] {journal : σ → Journal κ} {host : Host σ}

/-- An operation that brings no pipes of other applications, and changes nothing behind the back of
the journal. -/
def Operation.Keeps (journal : σ → Journal κ) : Operation σ κ → Prop
  | mutate change => ∀ state, journal (change state) = journal state
  | insert proto _ dispatcher _ _ => proto.registry.Keeps journal ∧ dispatcher.Keeps journal
  | _ => True

/-- Every operation accounts for all pipes, whether it succeeds or not. -/
theorem Operation.run_orderly (host_keeps : host.Keeps journal) {operation : Operation σ κ}
    (keeps : operation.Keeps journal) {world : σ × Tree σ κ} (linked : Linked world.2 []) :
    Tree.Orderly journal world (operation.run host world).2 := by
  obtain ⟨state, tree⟩ := world
  have relinked {change : Tree σ κ → Except ForestError (Tree σ κ)}
      (same : ∀ next, change tree = .ok next → Forest.SamePayloads tree next) :
      Tree.Orderly journal (state, tree)
        (TreeM.restructure (fun tree => (change tree).map fun tree => ((), tree)) (state, tree)).2 := by
    simp only [TreeM.restructure]
    cases ran : change tree with
    | error cause => exact Std.Refl.refl _
    | ok next => exact Tree.orderly_of_same state (same next ran)
  cases operation with
  | mutate change =>
    intro tree_keeps
    have unchanged := keeps state
    refine ⟨tree_keeps, ⟨[], ?_, Tree.covers_nil fun _ _ => rfl⟩, ?_⟩
    · exact unchanged.trans (List.append_nil _).symm
    · intro accounts
      change (journal (change state)).Accounts _
      rw [unchanged]
      exact accounts
  | insert proto place dispatcher records localNames =>
    exact Tree.insert_orderly linked ⟨keeps.1, keeps.2⟩ (Detector.holdings_instantiate ..) state
  | addChild parent child => exact relinked fun next => Forest.samePayloads_addChild linked
  | removeChild parent child => exact relinked fun next => Forest.samePayloads_removeChild linked
  | remove id => exact relinked fun next => Forest.samePayloads_remove linked
  | destroy id =>
    simp only [run, Tree.destroy, Stateful.bind_apply, TreeM.restructure]
    cases ran : Forest.destroy tree id with
    | error cause => exact Std.Refl.refl _
    | ok outcome =>
      obtain ⟨given, next⟩ := outcome
      exact Tree.destroy_orderly (Forest.givesBack_destroy linked ran) state
  | hydrate id context locals => exact Tree.hydrate_orderly id context locals (state, tree)
  | dehydrate id => exact Tree.dehydrate_orderly id (state, tree)
  | setMode id mode => exact Tree.mode_orderly id mode (state, tree)
  | markPathToRoot id => exact Tree.markUpward_along Tree.mode_orderly _ _ (state, tree)
  | detect id => exact Tree.pass_orderly host_keeps .detect id (state, tree)
  | verify id => exact Tree.pass_orderly host_keeps .verify id (state, tree)

namespace Tree

theorem after_orderly (host_keeps : host.Keeps journal) {operations : List (Operation σ κ)}
    (keeps : ∀ operation ∈ operations, operation.Keeps journal) {world : σ × Tree σ κ}
    (linked : Linked world.2 []) :
    Orderly journal world (after host operations world) := by
  have both : Linked (after host operations world).2 [] ∧
      Orderly journal world (after host operations world) := by
    refine after_induction (P := fun next => Linked next.2 [] ∧ Orderly journal world next)
      ⟨linked, Std.Refl.refl world⟩ ?_
    rintro operation member next ⟨linked, orderly⟩
    refine ⟨operation.run_linked linked, ?_⟩
    exact Trans.trans orderly (operation.run_orderly host_keeps (keeps operation member) linked)
  exact both.2

/-- A pipe whose slot is empty behind it is destroyed. -/
theorem Handles.ended {world next : σ × Tree σ κ} (handles : Handles journal world next)
    (accounts : (journal world.1).Accounts (held world.2)) {id : NodeId} {index : Nat} {pipe : κ}
    (holds : pipe ∈ slotAt world.2 id index) (empty : slotAt next.2 id index = []) :
    (journal next.1).Ended pipe := by
  obtain ⟨ledger, grown, covers⟩ := handles.ledger
  have gone : .destroyed pipe ∈ journal next.1 := by
    have course := covers id index
    rw [empty] at course
    rw [grown]
    exact List.mem_append_right _ ((ledger.of_sublist _).subset (course.destroyed_of_empty holds))
  exact (handles.accounts accounts).ended_of_destroyed gone

/-- A detector without a context holds no pipe. -/
theorem slotAt_dehydrate (world : σ × Tree σ κ) (keeps : Keeps journal world.2) (id : NodeId)
    (index : Nat) : slotAt (dehydrate id world).2.2 id index = [] := by
  obtain ⟨state, tree⟩ := world
  cases found : tree.node? id with
  | none =>
    rw [dehydrate, TreeM.onDetector_of_none found]
    simp only [slotAt, payloadOf, found]
    rfl
  | some node =>
    rw [dehydrate, TreeM.onDetector_of_some found]
    have here : payloadOf tree id = some node.payload := by
      rw [payloadOf, found]
      rfl
    have empty := (Detector.dehydrate_handled (keeps _ (Forest.payloadOf_mem here)) state).2
    simp only [slotAt, payloadOf, Forest.node?_modify, found, if_true, Option.map_some,
      Option.bind_some]
    exact slot_of_empty empty index

end Tree

namespace Recorder

/-- A number that no deed is about. -/
def fresh (journal : Journal Nat) : Nat := (journal.map Deed.pipe).foldr max 0 + 1

/-- An application that only keeps a journal. No pipe of it supports a value twice. -/
def registry : Registry (Journal Nat) Nat where
  makers := [("memo", [.hosted (fun _ => pure true) fun journal =>
    (fresh journal, journal ++ [.created (fresh journal)])])]
  hosted :=
    { supports := fun _ _ => pure false
      transform := fun pipe value _ journal => (.ok (.value value), journal ++ [.fed pipe])
      destroy := fun pipe journal => ((), journal ++ [.destroyed pipe]) }

def application : Host (Journal Nat) :=
  .ofFields (fun _ _ => throw (.host "no function")) (fun _ _ => throw (.host "no object"))
    (fun _ _ => []) fun _ => 0

def source : Source where
  expr := .pipe (.literal (.bool true)) "memo" [] 0
  text := "true | memo"
  location := ""
  slots := 1

/-- One expression that is detected twice, so that its pipe is replaced once. -/
def history : List (Operation (Journal Nat) Nat) :=
  [.insert { name := "a", registry, strategy := .compiled } (.detector 0) (fun _ _ => pure (.ok ()))
      [{ source, binding := ⟨"a"⟩, group := ⟨"a"⟩ }] [],
    .hydrate { index := 0, generation := 0 } .null [],
    .detect { index := 0, generation := 0 },
    .detect { index := 0, generation := 0 }]

theorem fresh_notMem (journal : Journal Nat) : Deed.created (fresh journal) ∉ journal := by
  intro made
  have bounded : ∀ deed ∈ journal, deed.pipe < fresh journal := by
    intro deed member
    have listed := List.mem_map_of_mem (f := Deed.pipe) member
    exact Nat.lt_succ_of_le (List.le_max_of_le' 0 listed (Nat.le_refl _))
  exact Nat.lt_irrefl _ (bounded _ made)

theorem application_keeps : application.Keeps id where
  call _ _ _ := rfl
  readField _ _ _ := rfl
  readKeyed _ _ _ := rfl
  invoke _ _ _ _ := rfl

theorem registry_keeps : registry.Keeps id where
  asks name makers known maker member value state := by
    cases List.mem_singleton.mp known
    cases List.mem_singleton.mp member
    rfl
  creates name makers known supports create member state := by
    cases List.mem_singleton.mp known
    cases List.mem_singleton.mp member
    exact ⟨fresh_notMem state, rfl⟩
  supports _ _ _ := rfl
  transforms _ _ _ _ := rfl
  destroys _ _ := rfl

theorem history_keeps : ∀ operation ∈ history ++ history, operation.Keeps id := by
  have each : ∀ operation ∈ history, operation.Keeps id := by
    simp only [history, List.forall_mem_cons, List.not_mem_nil, false_implies, implies_true,
      Operation.Keeps, and_true]
    exact ⟨registry_keeps, fun _ _ _ => rfl⟩
  exact List.forall_mem_append.mpr ⟨each, each⟩

end Recorder
end ChangeWatch
