import ChangeWatch.Proofs.Marks
import ChangeWatch.Proofs.Visits.Ticks
import Mathlib.Data.List.TakeWhile

/-!
Marks and passes. A pass comes down to a node on the way that leads up from it, and only while no node on
the way is skipped. With marks on the way up, detached nodes are the only ones that keep a pass away.
-/
namespace ChangeWatch

open Forest (Ascent Linked)

namespace Tree

variable {tree next : Tree σ κ} {id root : NodeId} {ids path : List NodeId} {start : Option NodeId}

/-- A pass comes down to a node when no node on the way up is skipped. -/
theorem active_iff_awake (linked : Linked tree []) (ascent : Ascent tree (some id) path)
    (last : path.getLast? = some root) :
    Active tree root id ↔ ∀ other ∈ path, Awake tree other := by
  constructor
  · intro active
    induction active generalizing path with
    | top awake =>
      have top := ascent.parentOf_last last
      cases ascent with
      | step found rest =>
        rw [Forest.parentOf_of_some found] at top
        rw [top] at rest
        cases rest
        exact List.forall_mem_singleton.mpr awake
    | @child parent child _ listed awake ih =>
      have link := ((linked.linked parent child).mp listed).2
      cases ascent with
      | step found rest =>
        rw [Forest.parentOf_of_some found] at link
        rw [link] at rest
        exact List.forall_mem_cons.mpr ⟨awake, ih rest ((rest.getLast?_cons child).symm.trans last)⟩
  · intro awake
    induction path generalizing id with
    | nil => cases last
    | cons first above ih =>
      cases ascent with
      | @step _ node _ found rest =>
        obtain ⟨here, higher⟩ := List.forall_mem_cons.mp awake
        have up := Forest.parentOf_of_some found
        cases link : node.parent with
        | none =>
          rw [link] at rest
          cases rest
          obtain rfl : first = root := Option.some.inj last
          exact .top here
        | some parent =>
          rw [link] at rest up
          have listed := (linked.linked parent first).mpr ⟨List.not_mem_nil, up⟩
          exact .child (ih rest ((rest.getLast?_cons first).symm.trans last) higher) listed here

namespace Marks

theorem alike (marks : Marks tree ids next) : Forest.Alike tree next where
  parents := by
    funext id
    rw [Forest.parentOf, Forest.parentOf, marks.node?]
    split
    · cases tree.node? id <;> rfl
    · rfl
  children := by
    funext id
    rw [Forest.childrenOf, Forest.childrenOf, marks.node?]
    split
    · cases tree.node? id <;> rfl
    · rfl
  free := marks.free
  vacant index := by
    rw [Forest.vacant_iff_outline, Forest.vacant_iff_outline, marks.outline]

/-- A marked way is open from the root when nothing on it is detached. -/
theorem awake_iff (marks : Marks tree (tree.attached path) next) (ascent : Ascent tree start path) :
    (∀ other ∈ path, Awake next other) ↔ ∀ other ∈ path, tree.modeOf other ≠ some .detached := by
  refine ⟨fun awake other member detached => ?_, fun free other member => ?_⟩
  · obtain ⟨node, found, awake⟩ := awake other member
    rw [← marks.detached, modeOf_of_some found, Option.some.injEq] at detached
    rw [detached] at awake
    cases awake
  · have whole : tree.attached path = path :=
      List.takeWhile_eq_self_iff.mpr fun id member => decide_eq_true (free id member)
    obtain ⟨node, found⟩ := Forest.contains_iff.mp (ascent.contains other member)
    have mode := free other member
    rw [modeOf_of_some found, ne_eq, Option.some.injEq] at mode
    refine ⟨marked node, ?_, node.payload.mode.isSkipped_marked mode⟩
    rw [marks.node?, whole, if_pos member, found, Option.map_some]

end Marks

/-- Whatever has been done with a tree, marks on the way up from a node end by themselves. They let the
checked nodes of the way below the first detached one be checked once more, and change nothing else. If
a detection from the root gets through then, it comes to the node just when nothing on the way is
detached. -/
theorem marks_open_way (host : Host σ) (start : σ) (operations : List (Operation σ κ)) {id : NodeId}
    (live : Forest.contains (after host operations (start, {})).2 id = true) :
    let world := after host operations (start, {})
    ∃ path root marked, Ascent world.2 (some id) path ∧ path.getLast? = some root ∧
      (∀ rounds, path.length ≤ rounds →
        markUpward rounds (some id) world = (.ok (), (world.1, marked))) ∧
      markPathToRootAsCheckOnce id world = (.ok (), (world.1, marked)) ∧
      Marks world.2 (world.2.attached path) marked ∧
      ∀ ended, detectChanges host root (world.1, marked) = (.ok (), ended) →
        ∃ course : List (Inspection σ κ),
          Walk marked [root] (course.map Inspection.id) ∧
          Inspects host .detect marked world.1 course ended.1 ∧
          tidings host .detect root (world.1, marked) = courseTidings course ∧
          (id ∈ course.map Inspection.id ↔
            ∀ other ∈ path, world.2.modeOf other ≠ some .detached) := by
  intro world
  have linked : Linked world.2 [] := after_linked host start operations
  obtain ⟨path, ascent, short⟩ := linked.exists_ascent live
  obtain ⟨marked, marks, walked⟩ := exists_marked ascent world.1
  obtain ⟨root, last⟩ : ∃ root, path.getLast? = some root := by
    cases ascent
    exact ⟨_, List.getLast?_cons⟩
  refine ⟨path, root, marked, ascent, last, walked, walked _ (Nat.le_succ_of_le short), marks,
    fun ended ran => ?_⟩
  have linked' : Linked marked [] := linked.alike marks.alike
  obtain ⟨visited, walk, -, ends⟩ :=
    exists_pass_ends host .detect linked' (contains_of_pass_ok ran) world.1
  rcases ends _ _ ran with ⟨course, later, next, came, passed⟩ | ⟨_, _, _, _, _, _, came, -⟩
  · simp only [Prod.mk.injEq, List.nil_append] at came
    obtain ⟨-, rfl, told⟩ := came
    rw [← passed.order] at walk
    refine ⟨course, walk, passed.inspects, told, ?_⟩
    rw [walk.mem_iff, ← marks.awake_iff ascent,
      ← active_iff_awake linked' (marks.ascent ascent) last]
    simp only [List.mem_singleton, exists_eq_left]
  · cases came

end Tree

namespace Shelf

/-- The first child of the family, once it is checked, keeps a pass away from its own child. A mark lets
the pass through. -/
theorem marks_open_way_family :
    let world := Tree.after application (family ++ [.setMode (nth 1) .checked]) (1, {})
    Forest.contains world.2 (nth 3) = true ∧ world.2.modeOf (nth 1) = some .checked ∧
      ∃ (marked : Tree Nat Empty) (ended : Nat × Tree Nat Empty)
        (course : List (Tree.Inspection Nat Empty)),
        Tree.markPathToRootAsCheckOnce (nth 3) world = (.ok (), (world.1, marked)) ∧
        marked.modeOf (nth 1) = some .checkOnce ∧
        Tree.detectChanges application (nth 0) (world.1, marked) = (.ok (), ended) ∧
        Tree.Inspects application .detect marked world.1 course ended.1 ∧
        nth 3 ∈ course.map Tree.Inspection.id := by
  intro world
  have live : Forest.contains world.2 (nth 3) = true := by decide +kernel
  have before : world.2.modeOf (nth 1) = some .checked := by decide +kernel
  obtain ⟨path, root, marked, ascent, last, -, walked, marks, visits⟩ :=
    Tree.marks_open_way application 1 (family ++ [.setMode (nth 1) .checked]) live
  have whole : Ascent world.2 (some (nth 3)) [nth 3, nth 1, nth 0] :=
    .step rfl (.step rfl (.step rfl .top))
  obtain rfl : [nth 3, nth 1, nth 0] = path := whole.unique ascent
  obtain rfl : nth 0 = root := Option.some.inj last
  have behind : marked =
      (Tree.markPathToRootAsCheckOnce (κ := Empty) (nth 3) world).2.2 := by rw [walked]
  have fine : (Tree.detectChanges application (nth 0) (world.1, marked)).1.isOk = true := by
    rw [behind]
    decide +kernel
  rcases ran : Tree.detectChanges application (nth 0) (world.1, marked) with ⟨result, ended⟩
  rw [ran] at fine
  cases result with
  | error cause => cases fine
  | ok =>
    obtain ⟨course, -, inspects, -, reached⟩ := visits ended ran
    refine ⟨live, before, marked, ended, course, walked, ?_, ran, inspects, reached.mpr ?_⟩
    · rw [behind]
      decide +kernel
    · decide +kernel

end Shelf
end ChangeWatch
