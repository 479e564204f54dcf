import ChangeWatch.Proofs.Likeness
import ChangeWatch.Proofs.Stateful

/-!
The two ways to evaluate an expression are one computation. Lowered code, run in the place where it
was lowered, does what walking the tree does: the same requests to host and pipes in the same order,
the same outcome, the same states. The requests are the calls of host functions, the accesses to host
objects and the applications of pipes, noted in the order in which they are made; noting changes nothing
else. No property of host or pipes is assumed.
-/
namespace ChangeWatch

inductive Request where
  | call (function : FunctionRef) (args : List Value)
  | readField (object : ObjectRef) (name : String)
  | readKeyed (object : ObjectRef) (key : Value)
  | invoke (object : ObjectRef) (name : String) (args : List Value)
  | pipe (slot : Nat) (name : String) (value : Value) (args : List Value)

/-- An access that is noted, whether it succeeds or not. -/
def Access.noted (request : Request) (access : Access σ α) : Access (σ × List Request) α :=
  fun (state, requests) =>
    let (result, state) := access state
    (result, (state, requests ++ [request]))

def Host.noted (host : Host σ) : Host (σ × List Request) where
  call f args := .noted (.call f args) (host.call f args)
  readField ref name := .noted (.readField ref name) (host.readField ref name)
  readKeyed ref key := .noted (.readKeyed ref key) (host.readKeyed ref key)
  invoke ref name args := .noted (.invoke ref name args) (host.invoke ref name args)
  fields state := host.fields state.1
  nesting state := host.nesting state.1

def PipeHost.noted (host : PipeHost σ π) : PipeHost (σ × List Request) π where
  apply slot name value args := fun ((state, requests), pipes) =>
    let (result, state, pipes) := host.apply slot name value args (state, pipes)
    (result, (state, requests ++ [.pipe slot name value args]), pipes)

def Setting.noted (setting : Setting σ π) : Setting (σ × List Request) π where
  host := setting.host.noted
  pipes := setting.pipes.noted
  scope := setting.scope

/-- The first computation is the second one with requests noted: the same result and states. -/
def Eval.Notes (noted : Eval (σ × List Request) π α) (plain : Eval σ π α) : Prop :=
  ∀ state requests pipes, ∃ later,
    noted ((state, requests), pipes) =
      ((plain (state, pipes)).1, ((plain (state, pipes)).2.1, later), (plain (state, pipes)).2.2)

namespace Eval

namespace Notes

theorem ofExcept (result : Except EvalError α) :
    Notes (.ofExcept result : Eval (σ × List Request) π α) (.ofExcept result) :=
  fun _ requests _ => ⟨requests, rfl⟩

theorem access (request : Request) (access : Access σ α) :
    Notes (.access (access.noted request) : Eval (σ × List Request) π α) (.access access) := by
  intro state requests pipes
  refine ⟨requests ++ [request], ?_⟩
  simp only [Eval.access, Access.noted]
  rcases access state with ⟨result, after⟩
  cases result <;> rfl

theorem bind {first : Eval (σ × List Request) π α} {plain : Eval σ π α}
    {next : α → Eval (σ × List Request) π β} {plainNext : α → Eval σ π β}
    (before : Notes first plain) (after : ∀ value, Notes (next value) (plainNext value)) :
    Notes (first >>= next) (plain >>= plainNext) := by
  intro state requests pipes
  obtain ⟨middle, ran⟩ := before state requests pipes
  rw [Stateful.bind_apply, Stateful.bind_apply, ran]
  rcases plain (state, pipes) with ⟨result, between, pipesBetween⟩
  cases result with
  | error cause => exact ⟨middle, rfl⟩
  | ok value => exact after value between middle pipesBetween

theorem apply (host : PipeHost σ π) (slot : Nat) (name : String) (value : Value)
    (args : List Value) :
    Notes (host.noted.apply slot name value args) (host.apply slot name value args) :=
  fun _ requests _ => ⟨requests ++ [.pipe slot name value args], rfl⟩

end Notes

def Likeness.noting : Likeness (σ × List Request) π σ π where
  Holds _ noted plain := Notes noted plain
  ofExcept := Notes.ofExcept
  bind := Notes.bind
  mono notes _ := notes

end Eval

open Eval (Notes)

theorem Setting.noted_alike (setting : Setting σ π) : Setting.Alike .noting setting.noted setting :=
  .of_scope
    { call := fun f args => Notes.access (.call f args) _
      readField := fun ref name => Notes.access (.readField ref name) _
      readKeyed := fun ref key => Notes.access (.readKeyed ref key) _
      invoke := fun ref name args => Notes.access (.invoke ref name args) _ }
    rfl (Notes.apply setting.pipes)

/-- Noting the requests of an evaluation changes nothing else about it. -/
theorem Program.evaluate_notes (setting : Setting σ π) (base : Place) (program : Program) :
    Notes (program.evaluate setting.noted base) (program.evaluate setting base) :=
  program.evaluate_alike setting.noted_alike base

namespace Code

variable (setting : Setting σ π) (base : Place)

theorem eq_const_of_const? {code : Code} {value : Value} (known : code.const? = some value) :
    code = const value := by
  cases code <;> simp_all [const?]

/-- A folded computation answers like the code that it replaces: a failure is not folded. -/
theorem run_foldOr {computed : Option (Except EvalError Value)} {code : Code}
    (agrees : ∀ value, computed = some (.ok value) → code.run setting base = pure value) :
    (foldOr computed code).run setting base = code.run setting base := by
  cases computed with
  | none => rfl
  | some result =>
    cases result with
    | error cause => rfl
    | ok value => simpa only [foldOr, run] using (agrees value rfl).symm

theorem run_ofUnary (op : UnaryOp) (operand : Code) :
    (ofUnary op operand).run setting base = (unary op operand).run setting base := by
  apply run_foldOr
  intro value folded
  obtain ⟨constant, known, applied⟩ := Option.map_eq_some_iff.mp folded
  rw [eq_const_of_const? known]
  simp only [run, pure_bind, applied]
  rfl

theorem run_binary_const {op : BinaryOp} {left right value : Value}
    (applied : op.apply left right = .ok value) :
    (binary op (const left) (const right)).run setting base = pure value := by
  cases op with
  | and =>
    cases applied
    simp only [run, pure_bind]
    cases left.truthy <;> rfl
  | or =>
    cases applied
    simp only [run, pure_bind]
    cases left.truthy <;> rfl
  | _ =>
    simp only [run, pure_bind, applied]
    rfl

theorem run_ofBinary (op : BinaryOp) (left right : Code) :
    (ofBinary op left right).run setting base = (binary op left right).run setting base := by
  apply run_foldOr
  intro value folded
  split at folded
  · rename_i l r knownLeft knownRight
    rw [eq_const_of_const? knownLeft, eq_const_of_const? knownRight]
    exact run_binary_const setting base (Option.some.inj folded)
  · contradiction

theorem runAll_of_consts? {codes : List Code} {values : List Value}
    (known : consts? codes = some values) : runAll setting base codes = pure values := by
  induction codes generalizing values with
  | nil =>
    cases known
    rfl
  | cons code codes ih =>
    simp only [consts?, Option.bind_eq_bind, Option.bind_eq_some_iff] at known
    obtain ⟨first, knownFirst, rest, knownRest, paired⟩ := known
    cases Option.some.inj paired
    rw [eq_const_of_const? knownFirst]
    simp only [runAll, run, pure_bind, ih knownRest]

theorem uses_foldOr {computed : Option (Except EvalError Value)} {code : Code}
    (idle : ∀ value, computed = some (.ok value) → code.uses = []) :
    (foldOr computed code).uses = code.uses := by
  cases computed with
  | none => rfl
  | some result =>
    cases result with
    | error cause => rfl
    | ok value => exact (idle value rfl).symm

theorem uses_ofUnary (op : UnaryOp) (operand : Code) : (ofUnary op operand).uses = operand.uses := by
  refine uses_foldOr fun value folded => ?_
  obtain ⟨constant, known, -⟩ := Option.map_eq_some_iff.mp folded
  rw [eq_const_of_const? known]
  rfl

theorem uses_ofBinary (op : BinaryOp) (left right : Code) :
    (ofBinary op left right).uses = left.uses ++ right.uses := by
  refine uses_foldOr fun value folded => ?_
  split at folded
  · rename_i l r knownLeft knownRight
    rw [eq_const_of_const? knownLeft, eq_const_of_const? knownRight]
    rfl
  · contradiction

theorem usesAll_of_consts? {codes : List Code} {values : List Value}
    (known : consts? codes = some values) : usesAll codes = [] := by
  induction codes generalizing values with
  | nil => rfl
  | cons code codes ih =>
    simp only [consts?, Option.bind_eq_bind, Option.bind_eq_some_iff] at known
    obtain ⟨first, knownFirst, rest, knownRest, -⟩ := known
    rw [eq_const_of_const? knownFirst, usesAll, ih knownRest]
    rfl

end Code

namespace Expr

open Code

variable (setting : Setting σ π)

section Constants

variable (origin base : Place) (path : List Nat)

/-- A condition that is constant chooses its branch beforehand. -/
theorem run_lower_conditional (condition yes no : Expr) :
    ((conditional condition yes no).lower origin path).run setting base = (do
      let value ← (condition.lower origin (0 :: path)).run setting base
      if value.truthy then (yes.lower origin (1 :: path)).run setting base
      else (no.lower origin (2 :: path)).run setting base) := by
  rw [lower]
  split
  · rename_i value lowered
    rw [lowered]
    simp only [run, pure_bind]
    split <;> rfl
  · rw [run]

/-- Where the container of a literal is made: constants are put into it when the code is lowered. -/
def maker (origin base : Place) (codes : List Code) : Place :=
  if (consts? codes).isSome then origin else base

theorem maker_self (base : Place) (codes : List Code) : maker base base codes = base := ite_self base

/-- A list of constants is made once, in the place where the code was lowered. -/
theorem run_lower_array (items : List Expr) :
    ((array items).lower origin path).run setting base = (do
      let values ← runAll setting base (lowerAll origin path 0 items)
      return .list ((maker origin base (lowerAll origin path 0 items)).within path) values) := by
  rw [lower, maker]
  split
  · rename_i values known
    rw [runAll_of_consts? setting base known, known, run, pure_bind]
    rfl
  · rename_i unknown
    rw [run, unknown]
    rfl

theorem run_lower_map (entries : List (String × Expr)) :
    ((map entries).lower origin path).run setting base = (do
      let values ← runAll setting base (lowerEntries origin path 0 entries)
      return .map ((maker origin base (lowerEntries origin path 0 entries)).within path)
        (Entries.ofList ((entries.map Prod.fst).zip values))) := by
  rw [lower, maker]
  split
  · rename_i values known
    rw [runAll_of_consts? setting base known, known, run, pure_bind]
    rfl
  · rename_i unknown
    rw [run, unknown]
    rfl

/-- What a branch uses that is left out beforehand, is not used. -/
theorem uses_lower_conditional (condition yes no : Expr) :
    ((conditional condition yes no).lower origin path).uses.Sublist
      ((condition.lower origin (0 :: path)).uses ++ ((yes.lower origin (1 :: path)).uses ++
        (no.lower origin (2 :: path)).uses)) := by
  rw [lower]
  split
  · rename_i value lowered
    rw [lowered]
    split
    · exact List.sublist_append_left _ _
    · exact List.sublist_append_right _ _
  · exact .refl _

theorem uses_lower_array (items : List Expr) :
    ((array items).lower origin path).uses = usesAll (lowerAll origin path 0 items) := by
  rw [lower]
  split
  · rename_i values known
    exact (usesAll_of_consts? known).symm
  · rfl

theorem uses_lower_map (entries : List (String × Expr)) :
    ((map entries).lower origin path).uses = usesAll (lowerEntries origin path 0 entries) := by
  rw [lower]
  split
  · rename_i values known
    exact (usesAll_of_consts? known).symm
  · rfl

end Constants

variable (base : Place)

mutual
/-- Running lowered code in the place of its lowering is evaluating the expression. -/
theorem run_lower (path : List Nat) :
    (e : Expr) → (e.lower base path).run setting base = e.eval setting base path
  | implicit | literal _ => by simp only [lower, eval, run]
  | property receiver name => by
    simp only [lower, eval]
    split
    · simp only [run]
    · simp only [run, run_lower (0 :: path) receiver]
  | keyed receiver key => by
    simp only [lower, eval, run, run_lower (0 :: path) receiver, run_lower (1 :: path) key]
  | method receiver name args => by
    simp only [lower, eval]
    split
    · simp only [run, runAll_lowerAll path 1 args]
    · simp only [run, run_lower (0 :: path) receiver, runAll_lowerAll path 1 args]
  | apply target args => by
    simp only [lower, eval, run, run_lower (0 :: path) target, runAll_lowerAll path 1 args]
  | unary op operand => by
    simp only [lower, eval, run_ofUnary, run, run_lower (0 :: path) operand]
  | binary op left right => by
    rw [lower, run_ofBinary]
    cases op <;> simp only [eval, run, run_lower (0 :: path) left, run_lower (1 :: path) right]
  | conditional condition yes no => by
    rw [run_lower_conditional, eval, run_lower (0 :: path) condition,
      run_lower (1 :: path) yes, run_lower (2 :: path) no]
  | array items => by
    rw [run_lower_array, eval, runAll_lowerAll path 0 items, maker_self]
  | map entries => by
    rw [run_lower_map, eval, ← runAll_lowerEntries path 0 entries, maker_self]
    simp only [bind_assoc, pure_bind]
  | pipe exp name args slot => by
    simp only [lower, eval, run, run_lower (0 :: path) exp, runAll_lowerAll path 1 args]
  | interpolation strings expressions => by
    simp only [lower, eval, run, runText_lowerAll path 0 strings expressions]

theorem runAll_lowerAll (path : List Nat) (index : Nat) :
    (es : List Expr) →
      runAll setting base (lowerAll base path index es) = evalAll setting base path index es
  | [] => by simp only [lowerAll, runAll, evalAll]
  | e :: es => by
    simp only [lowerAll, runAll, evalAll, run_lower (index :: path) e,
      runAll_lowerAll path (index + 1) es]

/-- Code keeps the keys of a map apart from the code of its values. -/
theorem runAll_lowerEntries (path : List Nat) (index : Nat) :
    (entries : List (String × Expr)) →
      (do
        let values ← runAll setting base (lowerEntries base path index entries)
        return (entries.map Prod.fst).zip values) = evalEntries setting base path index entries
  | [] => by simp only [lowerEntries, runAll, evalEntries, pure_bind, List.map_nil, List.zip_nil_left]
  | (key, e) :: entries => by
    simp only [lowerEntries, runAll, evalEntries, run_lower (index :: path) e,
      ← runAll_lowerEntries path (index + 1) entries, bind_assoc, pure_bind, List.map_cons,
      List.zip_cons_cons]

theorem runText_lowerAll (path : List Nat) (index : Nat) :
    (strings : List String) → (es : List Expr) →
      runText setting base strings (lowerAll base path index es) =
        evalText setting base path index strings es
  | strings, [] => by cases strings <;> simp only [lowerAll, runText, evalText]
  | [], e :: es => by simp only [lowerAll, runText, evalText]
  | text :: strings, e :: es => by
    simp only [lowerAll, runText, evalText, run_lower (index :: path) e,
      runText_lowerAll path (index + 1) strings es]
end

end Expr

theorem Program.uses_ofExpr (origin : Place) (e : Expr) :
    (Program.ofExpr origin e).uses = (e.lower origin []).uses := by
  cases e <;> rfl

theorem Program.evaluate_ofExpr (setting : Setting σ π) (base : Place) (e : Expr) :
    (Program.ofExpr base e).evaluate setting base = e.evaluate setting base := by
  cases e with
  | pipe exp name args slot =>
    simp only [Program.ofExpr, Program.evaluate, Expr.evaluate, Expr.run_lower,
      Expr.runAll_lowerAll]
  | _ => simp only [Program.ofExpr, Program.evaluate, Expr.evaluate, Expr.run_lower]

namespace Evaluator

/-- Under either strategy an evaluation stays within a relation when what it does outside does. -/
theorem evaluate_along {R : σ × π → σ × π → Prop} [Std.Refl R] [Trans R R R] {setting : Setting σ π}
    (along : setting.Along R) (base : Place) (evaluator : Evaluator) (number : Nat) :
    Stateful.Along R (evaluator.evaluate setting base number) := by
  cases evaluator with
  | interpreter source =>
    rw [evaluate, ← Program.evaluate_ofExpr]
    exact Program.evaluate_along along _ _
  | compiled source program => exact Program.evaluate_along along _ program

/-- What can be seen of one evaluation. -/
structure Observation (σ π : Type) where
  outcome : Except EvalError Outcome
  requests : List Request
  state : σ
  pipes : π

/-- The first evaluation by a new evaluator. -/
def observe (strategy : Strategy) (source : Source) (place : Place) (setting : Setting σ π)
    (state : σ) (pipes : π) : Observation σ π :=
  let (outcome, (state, requests), pipes) :=
    (make strategy source place).evaluate setting.noted place 0 ((state, []), pipes)
  { outcome, requests, state, pipes }

theorem source_make (strategy : Strategy) (source : Source) (place : Place) :
    (make strategy source place).source = source := by
  cases strategy <;> rfl

/-- The evaluations of a new evaluator run code of its expression, whatever the strategy. -/
theorem evaluate_make (strategy : Strategy) (source : Source) (place : Place)
    (number : Nat) : ∃ origin, ∀ {σ π : Type} (setting : Setting σ π),
      (make strategy source place).evaluate setting place number =
        (Program.ofExpr origin source.expr).evaluate setting (.part number place) := by
  cases strategy with
  | interpreted => exact ⟨_, fun setting => (Program.evaluate_ofExpr setting _ source.expr).symm⟩
  | compiled => exact ⟨_, fun setting => rfl⟩

theorem evaluate_make_compiled (source : Source) (place : Place) (setting : Setting σ π) :
    (make .compiled source place).evaluate setting place 0 =
      (make .interpreted source place).evaluate setting place 0 := by
  simp only [make, evaluate, Program.evaluate_ofExpr]

theorem observe_faithful (strategy : Strategy) (source : Source) (place : Place)
    (setting : Setting σ π) (state : σ) (pipes : π) :
    (make strategy source place).evaluate setting place 0 (state, pipes) =
      let seen := observe strategy source place setting state pipes
      (seen.outcome, seen.state, seen.pipes) := by
  obtain ⟨origin, evaluates⟩ := evaluate_make strategy source place 0
  have notes := (Program.ofExpr origin source.expr).evaluate_notes setting (.part 0 place)
  rw [← evaluates, ← evaluates] at notes
  obtain ⟨requests, ran⟩ := notes state [] pipes
  simp only [observe, ran]
  rfl

/-- A new evaluator of either strategy does the same, whatever expression it was made from and
whatever host, pipes and names it meets: the outcome, the requests in their order and the states
behind are equal, and they are those of the evaluation itself. Containers are named by the literals
that make them, so equal names here stand for containers that only their makers tell apart. -/
theorem strategies_agree (source : Source) (place : Place) (setting : Setting σ π)
    (state : σ) (pipes : π) :
    observe .compiled source place setting state pipes =
        observe .interpreted source place setting state pipes ∧
      ∀ strategy, (make strategy source place).evaluate setting place 0 (state, pipes) =
        let seen := observe strategy source place setting state pipes
        (seen.outcome, seen.state, seen.pipes) := by
  refine ⟨?_, fun strategy => observe_faithful strategy source place setting state pipes⟩
  simp only [observe, evaluate_make_compiled]

end Evaluator
end ChangeWatch
