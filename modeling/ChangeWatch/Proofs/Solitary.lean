import ChangeWatch.Proofs.Nodes
import ChangeWatch.Proofs.Stateful
import ChangeWatch.Tree.Pass

/-!
Trees of one detector that is always checked. A pass over such a tree is a check of its detector.
-/
namespace ChangeWatch

namespace Forest

/-- The forest of one node. -/
def single (payload : α) : Forest α := { cells := [{ generation := 0, node := some { payload } }] }

def soleId : NodeId := { index := 0, generation := 0 }

theorem node?_single (payload : α) : (single payload).node? soleId = some { payload } := rfl

end Forest

open Forest (single soleId)

section Single

variable {detector : Detector σ κ} {state : σ}

/-- What the result of a check is to a pass. -/
def CheckError.verdict : Except CheckError Nat → Except DetectorError Unit
  | .ok _ => .ok ()
  | .error cause => .error (.check cause)

/-- What a check of a detector is to its tree. -/
def Tree.checked (ran : (Except CheckError Nat × Detector σ κ) × σ) :
    Except DetectorError Unit × σ × Tree σ κ :=
  (CheckError.verdict ran.1.1, ran.2, single ran.1.2)

theorem TreeM.onDetector_single (action : Detector σ κ → StateM σ (α × Detector σ κ)) :
    onDetector soleId action (state, single detector) =
      let acted := action detector state
      (.ok acted.1.1, (acted.2, single acted.1.2)) :=
  onDetector_of_some (Forest.node?_single detector)

theorem Tree.mode_single :
    mode soleId (state, single detector) = (.ok detector.mode, (state, single detector)) :=
  TreeM.onDetector_single _

theorem Tree.setMode_single (mode : Mode) :
    setMode soleId mode (state, single detector) =
      (.ok (), (state, single { detector with mode })) :=
  TreeM.onDetector_single _

theorem Tree.checkNode_single (host : Host σ) (purpose : Purpose) :
    checkNode host purpose soleId (state, single detector) =
      checked (detector.check host purpose state) := by
  rw [checkNode, Stateful.bind_of_ok (TreeM.onDetector_single _)]
  rcases detector.check host purpose state with ⟨⟨result, after⟩, later⟩
  cases result <;> rfl

theorem Detector.check_mode (host : Host σ) (purpose : Purpose) :
    (detector.check host purpose state).1.2.mode = detector.mode := by
  simp only [check]
  cases detector.scope <;> rfl

/-- A pass over one detector that is always checked is a check of it. -/
theorem Tree.pass_single (host : Host σ) (purpose : Purpose)
    (always : detector.mode = .checkAlways) :
    pass host purpose soleId (state, single detector) =
      checked (detector.check host purpose state) := by
  have ran := @checkNode_single _ _ detector state host purpose
  have stays := (@Detector.check_mode _ _ detector state host purpose).trans always
  change visit host purpose 2 soleId (state, single detector) = _
  rw [visit, Stateful.bind_of_ok mode_single]
  simp only [always, Mode.isSkipped, Bool.false_eq_true, if_false]
  generalize detector.check host purpose state = outcome at ran stays ⊢
  obtain ⟨⟨result, after⟩, later⟩ := outcome
  cases result with
  | error cause => exact Stateful.bind_of_error ran
  | ok count =>
    have leaf : children soleId (later, single after) = (.ok [], (later, single after)) := rfl
    have unchanged : { after with mode := after.mode.afterVisit } = after := by
      obtain ⟨name, registry, dispatcher, bindings, localNames, scope, mode⟩ := after
      cases stays
      rfl
    rw [Stateful.bind_of_ok ran, Stateful.bind_of_ok leaf]
    change (mode soleId >>= fun mode => setMode soleId mode.afterVisit) (later, single after) = _
    rw [Stateful.bind_of_ok mode_single, setMode_single, unchanged]
    rfl

end Single

end ChangeWatch
