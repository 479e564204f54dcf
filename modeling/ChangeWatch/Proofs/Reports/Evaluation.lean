import ChangeWatch.Proofs.Reports.Indirect
import ChangeWatch.Proofs.Timeless.Settling

/-!
Evaluations that meet no objects. Where the names that an expression sees mean values without objects, so
do all its parts, as long as none of them is the context itself.
-/
namespace ChangeWatch

open Stateful (Ensures error_finds)

variable [Epoch]

/-- No value holds an object or a function. -/
structure Epoch.Barren : Prop where
  objects : ∀ ref, ¬ Epoch.Object ref
  functions : ∀ ref, ¬ Epoch.Function ref

namespace Eval

variable {K : σ × π → Prop} {V : α → Prop}

omit [Epoch] in
theorem ensures_ofExcept {result : Except EvalError α} (found : ∀ value, result = .ok value → V value) :
    Ensures K V (.ofExcept result : Eval σ π α) :=
  fun _ kept => ⟨kept, found⟩

omit [Epoch] in
/-- An access that leaves the application alone. -/
theorem ensures_answer {result : Except ValueError α} (found : ∀ value, result = .ok value → V value) :
    Ensures K V (.access fun state => (result, state) : Eval σ π α) := by
  rintro ⟨state, pipes⟩ kept
  cases result with
  | error cause => exact ⟨kept, nofun⟩
  | ok value =>
    refine ⟨kept, fun other same => ?_⟩
    cases same
    exact found value rfl

end Eval

namespace Value

variable (host : Host σ) (barren : Epoch.Barren) {value : Value} (tidy : value.Tidy)
include barren tidy

/-- A value without objects answers by itself. -/
theorem readField_tidy (name : String) : ∃ result, (∀ found, result = .ok found → Tidy found) ∧
    value.readField host name = fun state => (result, state) := by
  have length (n : Nat) : ∀ found, (.ok (ofNat n) : Except ValueError Value) = .ok found → Tidy found := by
    intro found same
    cases same
    exact (ofNat_foreign n).sound _
  cases value with
  | object ref => exact (barren.objects ref tidy).elim
  | map place entries =>
    cases bound : Entries.get? entries name with
    | some found =>
      simp only [readField, bound]
      refine ⟨.ok found, fun other same => ?_, rfl⟩
      cases same
      exact soundEntries_iff.mp tidy.2.2 _ (Entries.mem_of_get? bound)
    | none =>
      simp only [readField, bound]
      split
      · exact ⟨_, length _, rfl⟩
      · refine ⟨.ok .null, fun other same => ?_, rfl⟩
        cases same
        trivial
  | list place items =>
    simp only [readField]
    split
    · exact ⟨_, length _, rfl⟩
    · exact ⟨.error _, error_finds _, rfl⟩
  | str s =>
    simp only [readField]
    split
    · exact ⟨_, length _, rfl⟩
    · exact ⟨.error _, error_finds _, rfl⟩
  | _ => exact ⟨.error _, error_finds _, rfl⟩

theorem readKeyed_tidy (key : Value) : ∃ result, (∀ found, result = .ok found → Tidy found) ∧
    value.readKeyed host key = fun state => (result, state) := by
  have orNull {answer : Option Value} (held : ∀ found, answer = some found → Tidy found) :
      ∀ found, (.ok (answer.getD null) : Except ValueError Value) = .ok found → Tidy found := by
    intro found same
    cases same
    cases answer with
    | none => trivial
    | some found => exact held found rfl
  cases value with
  | object ref => exact (barren.objects ref tidy).elim
  | map place entries =>
    refine ⟨_, orNull fun found bound => ?_, rfl⟩
    exact soundEntries_iff.mp tidy.2.2 _ (Entries.mem_of_get? bound)
  | list place items =>
    simp only [readKeyed]
    split
    · rename_i index placed
      refine ⟨_, orNull fun found bound => ?_, rfl⟩
      obtain ⟨position, -, here⟩ := Option.bind_eq_some_iff.mp bound
      exact soundItems_iff.mp tidy.2 _ (List.mem_of_getElem? here)
    · exact ⟨.error _, error_finds _, rfl⟩
  | _ => exact ⟨.error _, error_finds _, rfl⟩

/-- Nothing can be called. -/
theorem call_tidy (label : String) (args : List Value) :
    ∃ cause, value.call host label args = fun state => (.error cause, state) := by
  cases value with
  | function ref => exact (barren.functions ref tidy).elim
  | _ => exact ⟨_, rfl⟩

theorem invoke_tidy (name : String) (args : List Value) :
    ∃ cause, value.invoke host name args = fun state => (.error cause, state) := by
  obtain ⟨result, held, read⟩ := readField_tidy host barren tidy name
  cases value with
  | object ref => exact (barren.objects ref tidy).elim
  | _ =>
    simp only [invoke, read]
    cases result with
    | error cause => exact ⟨cause, rfl⟩
    | ok found =>
      have tidy := held found rfl
      cases found with
      | function ref => exact (barren.functions ref tidy).elim
      | _ => exact ⟨_, rfl⟩

end Value

/-- Names and pipes give values without objects. -/
structure Setting.Tidy (setting : Setting σ π) (K : σ × π → Prop) : Prop where
  barren : Epoch.Barren
  readName : ∀ name, Ensures K Value.Tidy
    (.access (setting.scope.readName setting.host name) : Eval σ π Value)
  callName : ∀ name args, Ensures K Value.Tidy
    (.access (setting.scope.callName setting.host name args) : Eval σ π Value)
  apply : ∀ slot name (value : Value) args, value.Tidy →
    Ensures K (fun applied => applied.value.Tidy) (setting.pipes.apply slot name value args)

namespace Expr

variable {setting : Setting σ π} {K : σ × π → Prop}

theorem binary_tidy (op : BinaryOp) {left right : Eval σ π Value} (first : Ensures K Value.Tidy left)
    (second : Ensures K Value.Tidy right) : Ensures K Value.Tidy (do
      let left ← left
      let right ← right
      Eval.ofExcept (op.apply left right)) :=
  first.bind fun _ _ => second.bind fun _ _ =>
    Eval.ensures_ofExcept fun _ computed => (BinaryOp.apply_foreign computed).sound _

mutual
theorem eval_tidy (tidy : setting.Tidy K) (base : Place) (path : List Nat) : (e : Expr) → e.Indirect →
    Ensures K Value.Tidy (e.eval setting base path)
  | .implicit, impossible => impossible.elim
  | .literal value, scalar => by
    simp only [eval]
    exact .pure ((Value.IsScalar.foreign scalar).sound _)
  | .property receiver name, indirect => by
    simp only [eval]
    split
    · exact tidy.readName name
    · rename_i explicit
      refine (eval_tidy tidy base (0 :: path) receiver (indirect.resolve_left explicit)).bind
        fun value seen => ?_
      obtain ⟨result, held, read⟩ := Value.readField_tidy setting.host tidy.barren seen name
      exact read ▸ Eval.ensures_answer held
  | .keyed receiver key, indirect => by
    simp only [eval]
    refine (eval_tidy tidy base (0 :: path) receiver indirect.1).bind fun value seen => ?_
    refine (eval_tidy tidy base (1 :: path) key indirect.2).bind fun key _ => ?_
    obtain ⟨result, held, read⟩ := Value.readKeyed_tidy setting.host tidy.barren seen key
    exact read ▸ Eval.ensures_answer held
  | .method receiver name args, indirect => by
    simp only [eval]
    split
    · exact (evalAll_tidy tidy base path 1 args indirect.2).bind fun args _ => tidy.callName name args
    · rename_i explicit
      refine (eval_tidy tidy base (0 :: path) receiver (indirect.1.resolve_left explicit)).bind
        fun value seen => ?_
      refine (evalAll_tidy tidy base path 1 args indirect.2).bind fun args _ => ?_
      obtain ⟨cause, refused⟩ := Value.invoke_tidy setting.host tidy.barren seen name args
      exact refused ▸ Eval.ensures_answer (error_finds cause)
  | .apply target args, indirect => by
    simp only [eval]
    refine (eval_tidy tidy base (0 :: path) target indirect.1).bind fun value seen => ?_
    refine (evalAll_tidy tidy base path 1 args indirect.2).bind fun args _ => ?_
    obtain ⟨cause, refused⟩ := Value.call_tidy setting.host tidy.barren seen target.render args
    exact refused ▸ Eval.ensures_answer (error_finds cause)
  | .unary op operand, indirect => by
    simp only [eval]
    exact (eval_tidy tidy base (0 :: path) operand indirect).bind fun _ _ =>
      Eval.ensures_ofExcept fun _ computed => (UnaryOp.apply_foreign computed).sound _
  | .binary op left right, indirect => by
    have first := eval_tidy tidy base (0 :: path) left indirect.1
    have second := eval_tidy tidy base (1 :: path) right indirect.2
    cases op with
    | and =>
      simp only [eval]
      refine first.bind fun value _ => ?_
      split
      · exact second.bind fun _ _ => .pure trivial
      · exact .pure trivial
    | or =>
      simp only [eval]
      refine first.bind fun value _ => ?_
      split
      · exact .pure trivial
      · exact second.bind fun _ _ => .pure trivial
    | _ =>
      simp only [eval]
      exact binary_tidy _ first second
  | .conditional condition yes no, indirect => by
    simp only [eval]
    refine (eval_tidy tidy base (0 :: path) condition indirect.1).bind fun value _ => ?_
    split
    · exact eval_tidy tidy base (1 :: path) yes indirect.2.1
    · exact eval_tidy tidy base (2 :: path) no indirect.2.2
  | .array items, indirect => by
    simp only [eval]
    exact (evalAll_tidy tidy base path 0 items indirect).bind fun _ held =>
      .pure ⟨.inr trivial, Value.soundItems_iff.mpr held⟩
  | .map entries, indirect => by
    simp only [eval]
    refine (evalEntries_tidy tidy base path 0 entries indirect).bind fun entries held => .pure ?_
    exact ⟨.inr trivial, (Entries.ofList_sorted entries).distinct, Value.soundEntries_iff.mpr
      fun entry member => held entry (Entries.mem_of_mem_ofList member)⟩
  | .pipe exp name args slot, indirect => by
    simp only [eval]
    refine (eval_tidy tidy base (0 :: path) exp indirect.1).bind fun value seen => ?_
    refine (evalAll_tidy tidy base path 1 args indirect.2).bind fun args _ => ?_
    exact (tidy.apply slot name value args seen).bind fun _ held => .pure held
  | .interpolation strings expressions, indirect => by
    simp only [eval]
    exact (evalText_tidy tidy base path 0 strings expressions indirect).bind fun _ _ => .pure trivial

theorem evalAll_tidy (tidy : setting.Tidy K) (base : Place) (path : List Nat) (index : Nat) :
    (es : List Expr) → IndirectAll es →
    Ensures K (fun values => ∀ value ∈ values, Value.Tidy value) (evalAll setting base path index es)
  | [], _ => by
    simp only [evalAll]
    exact .pure nofun
  | e :: es, ⟨first, others⟩ => by
    simp only [evalAll]
    refine (eval_tidy tidy base (index :: path) e first).bind fun value seen => ?_
    exact (evalAll_tidy tidy base path (index + 1) es others).bind fun values held =>
      .pure (List.forall_mem_cons.mpr ⟨seen, held⟩)

theorem evalEntries_tidy (tidy : setting.Tidy K) (base : Place) (path : List Nat) (index : Nat) :
    (entries : List (String × Expr)) →
    IndirectEntries entries → Ensures K (fun values => ∀ entry ∈ values, Value.Tidy entry.2)
      (evalEntries setting base path index entries)
  | [], _ => by
    simp only [evalEntries]
    exact .pure nofun
  | (key, e) :: entries, ⟨first, others⟩ => by
    simp only [evalEntries]
    refine (eval_tidy tidy base (index :: path) e first).bind fun value seen => ?_
    exact (evalEntries_tidy tidy base path (index + 1) entries others).bind fun values held =>
      .pure (List.forall_mem_cons.mpr ⟨seen, held⟩)

theorem evalText_tidy (tidy : setting.Tidy K) (base : Place) (path : List Nat) (index : Nat) :
    (strings : List String) → (es : List Expr) →
    IndirectAll es → Ensures K (fun _ => True) (evalText setting base path index strings es)
  | strings, [], _ => by
    cases strings <;> (simp only [evalText]; exact .pure trivial)
  | [], _ :: _, _ => by
    simp only [evalText]
    exact .pure trivial
  | text :: strings, e :: es, ⟨first, others⟩ => by
    simp only [evalText]
    refine (eval_tidy tidy base (index :: path) e first).bind fun value _ => ?_
    exact (evalText_tidy tidy base path (index + 1) strings es others).bind fun _ _ => .pure trivial
end

/-- What a whole expression finds. -/
theorem evaluate_tidy (tidy : setting.Tidy K) (base : Place) {e : Expr} (indirect : e.Indirect) :
    Ensures K (fun outcome => ∀ value, outcome = .value value → Value.Tidy value)
      (e.evaluate setting base) := by
  have found := eval_tidy tidy base [] e indirect
  cases e with
  | pipe exp name args slot =>
    simp only [evaluate]
    refine (eval_tidy tidy base [0] exp indirect.1).bind fun value seen => ?_
    refine (evalAll_tidy tidy base [] 1 args indirect.2).bind fun args _ => ?_
    refine (tidy.apply slot name value args seen).bind fun applied held => .pure ?_
    intro value same
    cases applied <;> cases same
    exact held
  | _ =>
    simp only [evaluate]
    refine found.bind fun value held => .pure ?_
    intro other same
    cases same
    exact held

end Expr
end ChangeWatch
