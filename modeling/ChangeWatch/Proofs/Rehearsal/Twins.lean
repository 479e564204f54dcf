import ChangeWatch.Proofs.Rehearsal.Detectors
import ChangeWatch.Proofs.Rest.Trees

/-!
Two passes over twin trees. From applications that are alike, detections go alike: they come to one
result, their notifications have one shape, and they leave twin trees and applications that are alike.
-/
namespace ChangeWatch

open Forest (Every)
open Stateful (Agree Refines)

namespace Stateful

variable {σ τ ε α β α' β' : Type} {R : σ → τ → Prop} {V : α → α' → Prop} {W : β → β' → Prop}
  {real : ExceptT ε (StateM σ) α} {model : ExceptT ε (StateM τ) α'}

/-- A computation refines another one from certain states on. -/
def RefinesAt (R : σ → τ → Prop) (V : α → α' → Prop) (real : ExceptT ε (StateM σ) α)
    (model : ExceptT ε (StateM τ) α') (state : σ) (image : τ) : Prop :=
  Agree V (real state).1 (model image).1 ∧ R (real state).2 (model image).2

theorem RefinesAt.bind {realNext : α → ExceptT ε (StateM σ) β}
    {modelNext : α' → ExceptT ε (StateM τ) β'} {state : σ} {image : τ}
    (first : RefinesAt R V real model state image)
    (next : ∀ value image, V value image → Refines R W (realNext value) (modelNext image)) :
    RefinesAt R W (real >>= realNext) (model >>= modelNext) state image := by
  rw [RefinesAt, bind_apply, bind_apply]
  obtain ⟨results, after⟩ := first
  generalize real state = ended at results after ⊢
  generalize model image = ended' at results after ⊢
  obtain ⟨result, between⟩ := ended
  obtain ⟨other, between'⟩ := ended'
  cases results with
  | error cause => exact ⟨.error cause, after⟩
  | ok related => exact next _ _ related between between' after

/-- Behind parts that get through, it is up to the rest. -/
theorem RefinesAt.behind {realNext : α → ExceptT ε (StateM σ) β}
    {modelNext : α' → ExceptT ε (StateM τ) β'} {state between : σ} {image between' : τ} {value : α}
    {value' : α'} (ran : real state = (.ok value, between)) (ran' : model image = (.ok value', between'))
    (next : RefinesAt R W (realNext value) (modelNext value') between between') :
    RefinesAt R W (real >>= realNext) (model >>= modelNext) state image := by
  rw [RefinesAt, bind_of_ok ran, bind_of_ok ran']
  exact next

end Stateful

open Stateful (RefinesAt)

theorem ToldM.quiet_of_ok {plain : TreeM σ κ α} {world next : σ × Tree σ κ} {value : α}
    (ran : plain world = (.ok value, next)) (told : Tidings) :
    quiet plain (world, told) = (.ok value, (next, told)) := by
  rw [quiet, ran]

namespace Tree

variable {hosted : HostedPipes σ Empty} {outlook : Outlook σ ν} {Alike : σ → σ → Prop} {seen : ν}
  {tree other : Tree σ Empty} {id : NodeId} {node node' : Node (Detector σ Empty)}
  {detector detector' : Detector σ Empty} {state : σ}

/-- Trees with the same nodes, whose detectors are twins. -/
structure Twin (hosted : HostedPipes σ Empty) (outlook : Outlook σ ν) (Alike : σ → σ → Prop)
    (seen : ν) (tree other : Tree σ Empty) : Prop where
  missing : ∀ id, tree.node? id = none → other.node? id = none
  node : ∀ id node, tree.node? id = some node → ∃ node', other.node? id = some node' ∧
    node'.children = node.children ∧ node.payload.Twin hosted outlook Alike seen node'.payload

namespace Twin

theorem mono {later : ν} (twin : Twin hosted outlook Alike seen tree other)
    (keeps : outlook.Keeps seen later) : Twin hosted outlook Alike later tree other where
  missing := twin.missing
  node id node found := by
    obtain ⟨node', found', children, payload⟩ := twin.node id node found
    exact ⟨node', found', children, payload.mono keeps⟩

theorem modify (twin : Twin hosted outlook Alike seen tree other) (id : NodeId)
    (payload : detector.Twin hosted outlook Alike seen detector') :
    Twin hosted outlook Alike seen
      (Forest.modify tree id fun node => { node with payload := detector })
      (Forest.modify other id fun node => { node with payload := detector' }) where
  missing there absent := by
    rw [Forest.node?_modify] at absent ⊢
    split at absent
    · rename_i same
      rw [if_pos same, twin.missing there (Option.map_eq_none_iff.mp absent), Option.map_none]
    · rename_i different
      rw [if_neg different, twin.missing there absent]
  node there here looked := by
    rw [Forest.node?_modify] at looked ⊢
    split at looked
    · rename_i same
      obtain ⟨node, found, rfl⟩ := Option.map_eq_some_iff.mp looked
      obtain ⟨node', found', children, -⟩ := twin.node there node found
      rw [if_pos same, found', Option.map_some]
      exact ⟨_, rfl, children, payload⟩
    · rename_i different
      obtain ⟨node', found', children, payload⟩ := twin.node there here looked
      exact ⟨node', by rw [if_neg different, found'], children, payload⟩

end Twin

/-- Applications that are alike beside twin trees, with tidings of one shape. -/
structure Paired (hosted : HostedPipes σ Empty) (outlook : Outlook σ ν) (Alike : σ → σ → Prop)
    (first second : (σ × Tree σ Empty) × Tidings) : Prop where
  states : Alike first.1.1 second.1.1
  trees : Twin hosted outlook Alike (outlook.view first.1.1) first.1.2 second.1.2
  shapes : first.2.shapes = second.2.shapes

/-- A check of a node in two trees, where the checks of its detectors match. -/
theorem narrateNode_paired {state' : σ} {told told' : Tidings} (found : tree.node? id = some node)
    (found' : other.node? id = some node')
    (matching : Detector.Matching hosted outlook Alike (outlook.view state)
      (node.payload.narrate outlook.host .detect state)
      (node'.payload.narrate outlook.host .detect state'))
    (trees : ∀ detector detector' later,
      detector.Twin hosted outlook Alike later detector' → outlook.Keeps (outlook.view state) later →
        Twin hosted outlook Alike later
          (Forest.modify tree id fun node => { node with payload := detector })
          (Forest.modify other id fun node => { node with payload := detector' }))
    (shapes : told.shapes = told'.shapes) :
    RefinesAt (Paired hosted outlook Alike) Eq (narrateNode outlook.host .detect id)
      (narrateNode outlook.host .detect id) ((state, tree), told) ((state', other), told') := by
  rw [RefinesAt, narrateNode, narrateNode]
  simp only [Forest.node_eq_ok.mpr found, Forest.node_eq_ok.mpr found']
  obtain ⟨results, twin, events, states, keeps⟩ := matching
  generalize node.payload.narrate outlook.host .detect state = ran at *
  generalize node'.payload.narrate outlook.host .detect state' = ran' at *
  obtain ⟨⟨⟨result, detector⟩, told₁⟩, later⟩ := ran
  obtain ⟨⟨⟨result', detector'⟩, told₂⟩, later'⟩ := ran'
  obtain rfl : result = result' := results
  refine ⟨?_, states, trees _ _ _ twin keeps, ?_⟩
  · cases result with
    | ok count => exact .ok rfl
    | error cause => exact .error _
  · have events : told₁.flatMap Event.shapes = told₂.flatMap Event.shapes := events
    simp only [Tidings.shapes_append, Tidings.shapes_of_node, shapes, events]

/-- What is read of the nodes of twin trees. -/
theorem read_paired {question : TreeM σ Empty α} {state' : σ} {told told' : Tidings} {value : α}
    (asked : question (state, tree) = (.ok value, (state, tree)))
    (asked' : question (state', other) = (.ok value, (state', other)))
    (pair : Paired hosted outlook Alike ((state, tree), told) ((state', other), told')) :
    RefinesAt (Paired hosted outlook Alike) Eq (ToldM.quiet question) (ToldM.quiet question)
      ((state, tree), told) ((state', other), told') := by
  rw [RefinesAt, ToldM.quiet, ToldM.quiet, asked, asked']
  exact ⟨.ok rfl, pair⟩

theorem refused_paired {question : TreeM σ Empty α} {state' : σ} {told told' : Tidings}
    {cause : DetectorError} (asked : question (state, tree) = (.error cause, (state, tree)))
    (asked' : question (state', other) = (.error cause, (state', other)))
    (pair : Paired hosted outlook Alike ((state, tree), told) ((state', other), told')) :
    RefinesAt (Paired hosted outlook Alike) Eq (ToldM.quiet question) (ToldM.quiet question)
      ((state, tree), told) ((state', other), told') := by
  rw [RefinesAt, ToldM.quiet, ToldM.quiet, asked, asked']
  exact ⟨.error cause, pair⟩

theorem mode_refines (id : NodeId) : Refines (Paired hosted outlook Alike) Eq
    (ToldM.quiet (mode id)) (ToldM.quiet (mode id)) := by
  rintro ⟨⟨state, tree⟩, told⟩ ⟨⟨state', other⟩, told'⟩ pair
  cases found : tree.node? id with
  | none =>
    exact refused_paired (TreeM.onDetector_of_none found)
      (TreeM.onDetector_of_none (pair.trees.missing id found)) pair
  | some node =>
    obtain ⟨node', found', -, twin⟩ := pair.trees.node id node found
    exact read_paired (mode_of_some found state) (twin.mode ▸ mode_of_some found' state') pair

theorem children_refines (id : NodeId) : Refines (Paired hosted outlook Alike) Eq
    (ToldM.quiet (children id)) (ToldM.quiet (children id)) := by
  rintro ⟨⟨state, tree⟩, told⟩ ⟨⟨state', other⟩, told'⟩ pair
  cases found : tree.node? id with
  | none =>
    have absent (tree : Tree σ Empty) (found : tree.node? id = none) (state : σ) :
        children id (state, tree) = (.error (.forest (.unknown id)), (state, tree)) := by
      simp only [children, TreeM.restructure, Forest.node, found]
      rfl
    exact refused_paired (absent tree found state)
      (absent other (pair.trees.missing id found) state') pair
  | some node =>
    obtain ⟨node', found', children, -⟩ := pair.trees.node id node found
    exact read_paired (children_of_some found state) (children ▸ children_of_some found' state') pair

theorem setMode_refines (id : NodeId) (mode : Mode) : Refines (Paired hosted outlook Alike) Eq
    (ToldM.quiet (setMode id mode)) (ToldM.quiet (setMode id mode)) := by
  rintro ⟨⟨state, tree⟩, told⟩ ⟨⟨state', other⟩, told'⟩ pair
  cases found : tree.node? id with
  | none =>
    exact refused_paired (TreeM.onDetector_of_none found)
      (TreeM.onDetector_of_none (pair.trees.missing id found)) pair
  | some node =>
    obtain ⟨node', found', -, twin⟩ := pair.trees.node id node found
    rw [ToldM.quiet, ToldM.quiet, setMode_of_some found, setMode_of_some found']
    exact ⟨.ok rfl, pair.states, pair.trees.modify id (twin.setMode mode), pair.shapes⟩

/-- The end of the visit of a node. -/
theorem mark_refines (id : NodeId) : Refines (Paired hosted outlook Alike) Eq
    (ToldM.quiet do setMode id (← mode id).afterVisit)
    (ToldM.quiet do setMode id (← mode id).afterVisit) := by
  have split (plain : TreeM σ Empty Mode) (next : Mode → TreeM σ Empty Unit) :
      (ToldM.quiet (plain >>= next)) = (ToldM.quiet plain >>= fun mode => .quiet (next mode)) := by
    funext ⟨world, told⟩
    rw [Stateful.bind_apply, ToldM.quiet, Stateful.bind_apply, ToldM.quiet]
    rcases plain world with ⟨result, later⟩
    cases result <;> rfl
  rw [split]
  refine .bind (mode_refines id) fun mode other same => ?_
  subst same
  exact setMode_refines id mode.afterVisit

section Visits

variable (views : ∀ state other, Alike state other → outlook.view other = outlook.view state)
include views

theorem narrateNode_refines (id : NodeId) : Refines (Paired hosted outlook Alike) Eq
    (narrateNode outlook.host .detect id) (narrateNode outlook.host .detect id) := by
  rintro ⟨⟨state, tree⟩, told⟩ ⟨⟨state', other⟩, told'⟩ pair
  cases found : tree.node? id with
  | none =>
    simp only [narrateNode, Forest.node, found, pair.trees.missing id found]
    exact ⟨.error _, pair⟩
  | some node =>
    obtain ⟨node', found', -, twin⟩ := pair.trees.node id node found
    exact narrateNode_paired found found' (twin.narrate views pair.states)
      (fun _ _ _ twin keeps => (pair.trees.mono keeps).modify id twin) pair.shapes

omit views in
theorem narrateEach_refines {narrate : NodeId → ToldM σ Empty Unit}
    (each : ∀ id, Refines (Paired hosted outlook Alike) Eq (narrate id) (narrate id))
    (ids : List NodeId) :
    Refines (Paired hosted outlook Alike) Eq (narrateEach narrate ids) (narrateEach narrate ids) := by
  induction ids with
  | nil => exact .pure rfl
  | cons id ids ih => exact .bind (each id) fun _ _ _ => ih

omit views in
/-- The rest of a visit behind the check of its node. -/
theorem narrateBelow_refines {narrate : NodeId → ToldM σ Empty Unit}
    (each : ∀ id, Refines (Paired hosted outlook Alike) Eq (narrate id) (narrate id)) (id : NodeId) :
    let below : ToldM σ Empty Unit := do
      narrateEach narrate (← .quiet (children id))
      .quiet do setMode id (← mode id).afterVisit
    Refines (Paired hosted outlook Alike) Eq below below := by
  refine .bind (children_refines id) fun below _ same => ?_
  subst same
  exact .bind (narrateEach_refines each below) fun _ _ _ => mark_refines id

/-- Detections over twin trees go alike. -/
theorem narrateVisit_refines (depth : Nat) (id : NodeId) : Refines (Paired hosted outlook Alike) Eq
    (narrateVisit outlook.host .detect depth id) (narrateVisit outlook.host .detect depth id) := by
  induction depth generalizing id with
  | zero => exact .pure rfl
  | succ depth ih =>
    refine .bind (mode_refines id) fun mode other same => ?_
    subst same
    split
    · exact .pure rfl
    · exact .bind (narrateNode_refines views id) fun _ _ _ => narrateBelow_refines ih id

end Visits
end Tree
end ChangeWatch
