import ChangeWatch.Proofs.Applications.Evaluation
import ChangeWatch.Proofs.Renewal
import ChangeWatch.Proofs.Segments.Piecewise

/-!
The pipes of accepted texts. Their slots are the numbers from zero on, every evaluation applies some of
them in ascending order, and a detector that watches the text has all of these slots at any time.
-/
namespace ChangeWatch

theorem Interpolation.Segments.spans {start stop : Nat} {es : List Expr}
    (segments : Segments start es stop) : Spans start (Expr.pipeSlotsAll es) stop := by
  induction segments with
  | nil slots => exact .nil slots
  | cons first _ ih => exact (parseSegment_spans first).append ih

/-- The slots of an accepted text are taken one after the other. -/
theorem parse_spans {reading : Reading} {text location : String} {source : Source}
    (read : parse reading text location = .ok source) :
    Spans 0 source.expr.pipeSlots source.slots := by
  cases reading with
  | binding => exact parseSegment_spans (parse_binding_ok_iff.mp read).1
  | interpolation =>
    obtain ⟨strings, es, same, segments⟩ := parse_interpolation_segments read
    rw [same]
    exact segments.spans

theorem pipeSlots_eq_range {reading : Reading} {text location : String} {source : Source}
    (read : parse reading text location = .ok source) :
    source.expr.pipeSlots = List.range source.slots := by
  obtain ⟨ordered, count⟩ := parse_spans read
  rw [Nat.zero_add] at count
  rw [List.range_eq_range', count]
  exact ordered

namespace PipeSlot

/-- Other pipes that do the same as those of a detector, wherever there is a slot. -/
def Covers (registry : Registry σ κ) (place : Place) (others : PipeHost σ (List (PipeSlot κ))) : Prop :=
  ∀ index name value args state slots, index < slots.length →
    others.apply index name value args (state, slots) =
      (host registry place).apply index name value args (state, slots)

theorem Covers.agree {registry : Registry σ κ} {place : Place} {others : PipeHost σ (List (PipeSlot κ))}
    (covers : Covers registry place others) {index count : Nat} (present : index < count) :
    (host registry place).Agree (fun slots => slots.length = count) others index where
  same name value args state slots same :=
    (covers index name value args state slots (same ▸ present)).symm
  keeps name value args state slots same := by
    rw [covers index name value args state slots (same ▸ present), host_length]
    exact same

end PipeSlot

namespace Binding

/-- Evaluates the expression with other pipes than its own. -/
def evaluateWith (others : PipeHost σ (List (PipeSlot κ))) (host : Host σ) (scope : Scope)
    (binding : Binding κ) : StateM σ (Except EvalError Outcome × Binding κ) := fun state =>
  let setting : Setting σ (List (PipeSlot κ)) := { host, scope, pipes := others }
  let (result, state, slots) := binding.evaluator.evaluate setting (.part 0 binding.place)
    binding.evaluations (state, binding.slots)
  ((result, { binding with slots, evaluations := binding.evaluations + 1 }), state)

/-- What stands where there is no slot is never asked for if the expression has all its slots. -/
theorem evaluateWith_eq {binding : Binding κ} {strategy : Strategy} {source : Source}
    (made : binding.evaluator = .make strategy source (.part 0 binding.place))
    (slots : ∀ slot ∈ source.expr.pipeSlots, slot < binding.slots.length) (registry : Registry σ κ)
    {others : PipeHost σ (List (PipeSlot κ))}
    (covers : PipeSlot.Covers registry (.part 1 binding.place) others) (host : Host σ) (scope : Scope) :
    binding.evaluateWith others host scope = binding.evaluate host registry scope := by
  funext state
  have same : binding.evaluator.evaluate { host, scope, pipes := others } (.part 0 binding.place)
      binding.evaluations (state, binding.slots) = binding.evaluator.evaluate
        { host, scope, pipes := PipeSlot.host registry (.part 1 binding.place) } (.part 0 binding.place)
        binding.evaluations (state, binding.slots) := by
    rw [made]
    exact Evaluator.evaluate_congr strategy source _ _ { host, scope, pipes := PipeSlot.host registry _ }
      (fun slot member => covers.agree (slots slot member)) rfl state
  exact congrArg (fun ended => ((ended.1, { binding with
    slots := ended.2.2, evaluations := binding.evaluations + 1 }), ended.2.1)) same

end Binding

/-- What has become of a detector that was made from records. -/
theorem Detector.made_of_blank {detector : Detector σ κ} {proto : Proto σ κ} {place : Place}
    {dispatcher : Dispatcher σ} {records : List BindingRecord} {localNames : List String}
    (made : detector.blank = proto.instantiate place dispatcher records localNames) :
    ∀ binding ∈ detector.bindings, ∃ strategy,
      binding.evaluator = .make strategy binding.evaluator.source (.part 0 binding.place) ∧
        binding.slots.length = binding.evaluator.source.slots := by
  intro binding member
  obtain ⟨record, -, index, blank⟩ := exists_record made member
  obtain ⟨evaluator, slots⟩ := Binding.made_of_blank blank
  refine ⟨proto.strategy, ?_⟩
  rw [slots, evaluator, Evaluator.source_make]
  exact ⟨rfl, rfl⟩

/-- The slots of the pipes in an accepted text are the numbers from zero on, each once. Whatever an
evaluation skips and however it ends, it applies pipes in ascending order of their slots, so none of them
twice. A detector that watches the text has all these slots at any time: it does not matter what is done
where there is none. -/
theorem parsed_pipes_ascend {reading : Reading} {text location : String} {source : Source}
    (read : parse reading text location = .ok source) :
    source.expr.pipeSlots = List.range source.slots ∧
    (∀ (σ π : Type) (strategy : Strategy) (place : Place) (number : Nat) (setting : Setting σ π)
        (state : σ) (pipes : π),
      let evaluator := Evaluator.make strategy source place
      let ended := evaluator.evaluate setting place number (state, pipes)
      ∃ requests, evaluator.evaluate setting.noted place number ((state, []), pipes) =
          (ended.1, (ended.2.1, requests), ended.2.2) ∧
        (Request.slots requests).Pairwise (· < ·) ∧ ∀ slot ∈ Request.slots requests, slot < source.slots) ∧
    ∀ (σ κ : Type) (host : Host σ) (operations : List (Operation σ κ)) (start : σ) (id : NodeId)
        (node : Node (Detector σ κ)) (detector : Detector σ κ) (binding : Binding κ),
      (Tree.after host operations (start, {})).2.node? id = some node →
      Detector.Lineage host node.payload detector → binding ∈ detector.bindings →
      binding.evaluator.source = source →
      binding.slots.length = source.slots ∧ ∀ others scope,
        PipeSlot.Covers detector.registry (.part 1 binding.place) others →
        binding.evaluateWith others host scope = binding.evaluate host detector.registry scope := by
  have range := pipeSlots_eq_range read
  refine ⟨range, ?_, ?_⟩
  · intro σ π strategy place number setting state pipes evaluator ended
    obtain ⟨requests, ran, ordered, -⟩ := Evaluator.evaluate_applies strategy source place number setting
      setting.pipes (fun slot _ => .refl setting.pipes slot) state [] pipes trivial
    rw [range] at ordered
    exact ⟨requests, ran, List.pairwise_lt_range.sublist ordered,
      fun slot member => List.mem_range.mp (ordered.subset member)⟩
  · rintro σ κ host operations start id node detector binding found lineage member rfl
    obtain ⟨operation, -, fresh⟩ := (Tree.after_madeBy host start operations id node.payload
      (by rw [Forest.payloadOf, found, Option.map_some])).lineage lineage |>.made
    obtain ⟨proto, place, dispatcher, records, localNames, made⟩ := Operation.exists_of_made fresh
    obtain ⟨strategy, evaluator, slots⟩ := Detector.made_of_blank made binding member
    refine ⟨slots, fun others scope covers => ?_⟩
    refine Binding.evaluateWith_eq evaluator (fun slot among => ?_) detector.registry covers host scope
    rw [range] at among
    exact slots ▸ List.mem_range.mp among

end ChangeWatch

namespace ChangeWatch.Shelf

/-- A pipe that is skipped in a first segment, and one in the argument of another in a second. -/
def segments : Source where
  expr := .interpolation ["", ", ", ""]
    [.binary .or (.literal (.bool true)) (.pipe (.literal (.str "b")) "f" [] 0),
      .pipe (.literal (.str "c")) "g" [.pipe (.literal (.str "d")) "h" [] 1] 2]
  text := "\x7b\x7b true || ('b' | f) \x7d\x7d, \x7b\x7b 'c' | g:('d' | h) \x7d\x7d"
  location := "view"
  slots := 3

/-- Pipes that give back what they get. -/
def echo : Setting Nat Unit where
  host := application
  pipes := { apply := fun _ _ value _ => pure (.changed value) }
  scope

/-- A detector that watches the segments. -/
def onSegments : List (Operation Nat Empty) :=
  [.insert { name := "a", registry, strategy := .interpreted } (.detector 0) (fun _ _ => pure (.ok ()))
    [{ source := segments, binding := ⟨"a"⟩, group := ⟨"a"⟩ }] []]

/-- The pipes of a detector, which find the last value unchanged where there is no slot. -/
def lenient (place : Place) : PipeHost Nat (List (PipeSlot Empty)) where
  apply index name value args := fun (state, slots) =>
    if index < slots.length then (PipeSlot.host registry place).apply index name value args (state, slots)
    else (.ok (.unchanged .null), (state, slots))

theorem lenient_covers (place : Place) : PipeSlot.Covers registry place (lenient place) :=
  fun _ _ _ _ _ _ present => if_pos present

theorem parsed_pipes_ascend_segments :
    parse .interpolation segments.text "view" = .ok segments ∧ segments.expr.pipeSlots = [0, 1, 2] ∧
      (∃ requests, (Evaluator.make .compiled segments (.detector 0)).evaluate echo.noted (.detector 0) 5
          ((1, []), ()) = (.ok (.value (.str "true, c")), (1, requests), ()) ∧
        Request.slots requests = [1, 2] ∧ (Request.slots requests).Pairwise (· < ·)) ∧
      ∃ node binding, (Tree.after application onSegments (1, {})).2.node? (nth 0) = some node ∧
        binding ∈ node.payload.bindings ∧ binding.slots.length = 3 ∧
        binding.evaluateWith (lenient (.part 1 binding.place)) application scope =
          binding.evaluate application registry scope := by
  have read : parse .interpolation segments.text "view" = .ok segments := by cbv
  obtain ⟨range, evaluations, detectors⟩ := parsed_pipes_ascend read
  obtain ⟨requests, ran, ascending, -⟩ := evaluations Nat Unit .compiled (.detector 0) 5 echo 1 ()
  have asked : requests =
      [.pipe 1 "h" (.str "d") [], .pipe 2 "g" (.str "c") [.str "d"]] :=
    (congrArg (fun world => world.2.1.2) ran).symm
  have found : (Tree.after application onSegments (1, {})).2.node? (nth 0) = some _ := rfl
  obtain ⟨slots, same⟩ := detectors Nat Empty application onSegments 1 (nth 0) _ _ _ found .refl
    List.mem_cons_self rfl
  refine ⟨read, range, ⟨requests, ran, ?_, ascending⟩, _, _, found, List.mem_cons_self, slots, ?_⟩
  · rw [asked]
    rfl
  · exact same _ _ (lenient_covers _)

end ChangeWatch.Shelf
