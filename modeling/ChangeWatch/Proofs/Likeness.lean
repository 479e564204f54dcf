import ChangeWatch.Expr.Evaluator
import ChangeWatch.Proofs.Stateful

/-!
One code run in two settings. Code reaches the outside in accesses and in applications of pipes only, so
the two runs have in common whatever these have in common, as long as equal answers have it, and sequences
when their parts have it. What code uses by name or by number bounds what it may ask for. In particular,
what an evaluation does to the application and the pipes stays within every relation that accesses and
applications of pipes stay within.
-/
namespace ChangeWatch

/-- What code uses of its setting: the meaning of a name, the pipe in a slot. -/
inductive Use where
  | name (name : String)
  | pipe (slot : Nat)

def Use.slot? : Use → Option Nat
  | .name _ => none
  | .pipe slot => some slot

mutual
/-- What code uses at most, in the order in which it does so. -/
def Code.uses : Code → List Use
  | context | const _ => []
  | readName name => [.name name]
  | readField receiver _ => receiver.uses
  | readKeyed receiver key => receiver.uses ++ key.uses
  | callName name args => usesAll args ++ [.name name]
  | invoke receiver _ args => receiver.uses ++ usesAll args
  | call _ target args => target.uses ++ usesAll args
  | unary _ operand => operand.uses
  | binary _ left right => left.uses ++ right.uses
  | branch condition yes no => condition.uses ++ (yes.uses ++ no.uses)
  | array _ items => usesAll items
  | map _ _ values => usesAll values
  | pipe exp _ args slot => exp.uses ++ (usesAll args ++ [.pipe slot])
  | woven _ parts => usesAll parts

def Code.usesAll : List Code → List Use
  | [] => []
  | code :: codes => code.uses ++ usesAll codes
end

def Program.uses : Program → List Use
  | value code => code.uses
  | pipe exp _ args slot => exp.uses ++ (Code.usesAll args ++ [.pipe slot])

namespace Eval

theorem access_bind (first : Access σ α) (next : α → Access σ β) :
    (.access (first >>= next) : Eval σ π β) = .access first >>= fun value => .access (next value) := by
  funext ⟨state, pipes⟩
  simp only [access, Bind.bind, ExceptT.bind, ExceptT.mk, StateT.bind, ExceptT.bindCont]
  rcases first state with ⟨result, after⟩
  cases result <;> rfl

/-- Something that two computations may have in common that use no more than is given, in this order. -/
structure Likeness (σ π τ ρ : Type) where
  Holds : {α : Type} → List Use → Eval σ π α → Eval τ ρ α → Prop
  ofExcept : ∀ {α : Type} (result : Except EvalError α), Holds [] (.ofExcept result) (.ofExcept result)
  bind : ∀ {α β : Type} {first last : List Use} {here : Eval σ π α} {there : Eval τ ρ α}
    {next : α → Eval σ π β} {nextThere : α → Eval τ ρ β}, Holds first here there →
      (∀ value, Holds last (next value) (nextThere value)) →
      Holds (first ++ last) (here >>= next) (there >>= nextThere)
  mono : ∀ {α : Type} {first uses : List Use} {here : Eval σ π α} {there : Eval τ ρ α},
    Holds first here there → first.Sublist uses → Holds uses here there

namespace Likeness

/-- What two computations have in common when something is so of all that they use. -/
def given (like : Likeness σ π τ ρ) (allowed : Use → Prop) : Likeness σ π τ ρ where
  Holds uses here there := (∀ use ∈ uses, allowed use) → like.Holds uses here there
  ofExcept result _ := like.ofExcept result
  bind before after all := by
    obtain ⟨first, last⟩ := List.forall_mem_append.mp all
    exact like.bind (before first) fun value => after value last
  mono holds fewer all := like.mono (holds fun use member => all use (fewer.subset member)) fewer

variable (like : Likeness σ π τ ρ) {uses : List Use}

theorem pure (value : α) : like.Holds uses (pure value) (pure value) :=
  like.mono (like.ofExcept (.ok value)) uses.nil_sublist

/-- What follows a computation uses nothing more. -/
theorem andThen {here : Eval σ π α} {there : Eval τ ρ α} {next : α → Eval σ π β}
    {nextThere : α → Eval τ ρ β} (before : like.Holds uses here there)
    (after : ∀ value, like.Holds [] (next value) (nextThere value)) :
    like.Holds uses (here >>= next) (there >>= nextThere) :=
  uses.append_nil ▸ like.bind before after

end Likeness
end Eval

open Eval (Likeness)

section Accesses

variable {like : Likeness σ π τ ρ} {here : Host σ} {there : Host τ}

/-- Applications that are alike in every access. -/
structure Host.Alike (like : Likeness σ π τ ρ) (here : Host σ) (there : Host τ) : Prop where
  call : ∀ f args, like.Holds [] (.access (here.call f args)) (.access (there.call f args))
  readField : ∀ ref name,
    like.Holds [] (.access (here.readField ref name)) (.access (there.readField ref name))
  readKeyed : ∀ ref key,
    like.Holds [] (.access (here.readKeyed ref key)) (.access (there.readKeyed ref key))
  invoke : ∀ ref name args,
    like.Holds [] (.access (here.invoke ref name args)) (.access (there.invoke ref name args))

namespace Host.Alike

variable (alike : Host.Alike like here there)
include alike

theorem given (allowed : Use → Prop) : Host.Alike (like.given allowed) here there where
  call f args _ := alike.call f args
  readField ref name _ := alike.readField ref name
  readKeyed ref key _ := alike.readKeyed ref key
  invoke ref name args _ := alike.invoke ref name args

theorem ofField (receiver : Value) (name : String) :
    like.Holds [] (.access (receiver.readField here name)) (.access (receiver.readField there name)) := by
  cases receiver with
  | object ref => exact alike.readField ref name
  | map place entries =>
    simp only [Value.readField]
    split
    · exact like.ofExcept _
    · exact like.ofExcept _
  | str s =>
    simp only [Value.readField]
    split
    · exact like.ofExcept _
    · exact like.ofExcept _
  | list place items =>
    simp only [Value.readField]
    split
    · exact like.ofExcept _
    · exact like.ofExcept _
  | _ => exact like.ofExcept _

theorem ofKey (receiver key : Value) :
    like.Holds [] (.access (receiver.readKeyed here key)) (.access (receiver.readKeyed there key)) := by
  cases receiver with
  | object ref => exact alike.readKeyed ref key
  | list place items =>
    simp only [Value.readKeyed]
    split
    · exact like.ofExcept _
    · exact like.ofExcept _
  | _ => exact like.ofExcept _

theorem ofCall (label : String) (target : Value) (args : List Value) :
    like.Holds [] (.access (target.call here label args)) (.access (target.call there label args)) := by
  cases target with
  | function f => exact alike.call f args
  | _ => exact like.ofExcept _

theorem ofInvoke (receiver : Value) (name : String) (args : List Value) :
    like.Holds [] (.access (receiver.invoke here name args))
      (.access (receiver.invoke there name args)) := by
  cases receiver with
  | object ref => exact alike.invoke ref name args
  | _ =>
    simp only [Value.invoke, Eval.access_bind]
    refine like.bind (alike.ofField _ name) fun found => ?_
    cases found with
    | function f => exact alike.call f args
    | _ => exact like.ofExcept _

theorem ofName (scope : Scope) (name : String) :
    like.Holds [] (.access (scope.readName here name)) (.access (scope.readName there name)) := by
  simp only [Scope.readName]
  split
  · exact like.ofExcept _
  · exact alike.ofField _ name

theorem ofCallName (scope : Scope) (name : String) (args : List Value) :
    like.Holds [] (.access (scope.callName here name args))
      (.access (scope.callName there name args)) := by
  simp only [Scope.callName]
  split
  · exact alike.ofCall name _ args
  · exact alike.ofInvoke _ name args

end Host.Alike
end Accesses

section Evaluations

/-- Settings that are alike in all that code may ask for. -/
structure Setting.Alike (like : Likeness σ π τ ρ) (here : Setting σ π) (there : Setting τ ρ) : Prop where
  host : Host.Alike like here.host there.host
  context : here.scope.context = there.scope.context
  readName : ∀ name, like.Holds [.name name] (.access (here.scope.readName here.host name))
    (.access (there.scope.readName there.host name))
  callName : ∀ name args, like.Holds [.name name] (.access (here.scope.callName here.host name args))
    (.access (there.scope.callName there.host name args))
  apply : ∀ slot name value args, like.Holds [.pipe slot] (here.pipes.apply slot name value args)
    (there.pipes.apply slot name value args)

variable {like : Likeness σ π τ ρ} {here : Setting σ π} {there : Setting τ ρ}

/-- Names that mean the same are read and called alike. -/
theorem Setting.Alike.of_scope (host : Host.Alike like here.host there.host)
    (scope : here.scope = there.scope)
    (apply : ∀ slot name value args, like.Holds [.pipe slot] (here.pipes.apply slot name value args)
      (there.pipes.apply slot name value args)) : Setting.Alike like here there where
  host := host
  context := scope ▸ rfl
  readName name := like.mono (scope ▸ host.ofName _ name) (List.nil_sublist _)
  callName name args := like.mono (scope ▸ host.ofCallName _ name args) (List.nil_sublist _)
  apply := apply

namespace Code

mutual
/-- Runs of one code in settings that are alike. -/
theorem run_alike (alike : Setting.Alike like here there) (base : Place) :
    (code : Code) → like.Holds code.uses (code.run here base) (code.run there base)
  | context => by
    simp only [run, alike.context]
    exact like.pure _
  | const _ => by
    simp only [run]
    exact like.pure _
  | readName name => by
    simp only [run]
    exact alike.readName name
  | readField receiver name => by
    simp only [run]
    exact like.andThen (run_alike alike base receiver) fun _ => alike.host.ofField _ name
  | readKeyed receiver key => by
    simp only [run]
    exact like.bind (run_alike alike base receiver) fun _ =>
      like.andThen (run_alike alike base key) fun _ => alike.host.ofKey _ _
  | callName name args => by
    simp only [run]
    exact like.bind (runAll_alike alike base args) fun _ => alike.callName name _
  | invoke receiver name args => by
    simp only [run]
    exact like.bind (run_alike alike base receiver) fun _ =>
      like.andThen (runAll_alike alike base args) fun _ => alike.host.ofInvoke _ name _
  | call label target args => by
    simp only [run]
    exact like.bind (run_alike alike base target) fun _ =>
      like.andThen (runAll_alike alike base args) fun _ => alike.host.ofCall label _ _
  | unary op operand => by
    simp only [run]
    exact like.andThen (run_alike alike base operand) fun _ => like.ofExcept _
  | binary op left right => by
    have first := run_alike alike base left
    have second := run_alike alike base right
    cases op with
    | and =>
      simp only [run]
      refine like.bind first fun value => ?_
      split
      · exact like.andThen second fun _ => like.pure _
      · exact like.pure _
    | or =>
      simp only [run]
      refine like.bind first fun value => ?_
      split
      · exact like.pure _
      · exact like.andThen second fun _ => like.pure _
    | _ =>
      simp only [run]
      exact like.bind first fun _ => like.andThen second fun _ => like.ofExcept _
  | branch condition yes no => by
    simp only [run]
    refine like.bind (run_alike alike base condition) fun value => ?_
    -- One branch is left out with what it uses, and the order of the others stays.
    split
    · exact like.mono (run_alike alike base yes) (List.sublist_append_left _ _)
    · exact like.mono (run_alike alike base no) (List.sublist_append_right _ _)
  | array path items => by
    simp only [run]
    exact like.andThen (runAll_alike alike base items) fun _ => like.pure _
  | map path keys values => by
    simp only [run]
    exact like.andThen (runAll_alike alike base values) fun _ => like.pure _
  | pipe exp name args slot => by
    simp only [run]
    exact like.bind (run_alike alike base exp) fun _ => like.bind (runAll_alike alike base args) fun _ =>
      like.andThen (alike.apply slot name _ _) fun _ => like.pure _
  | woven strings parts => by
    simp only [run]
    exact like.andThen (runText_alike alike base strings parts) fun _ => like.pure _

theorem runAll_alike (alike : Setting.Alike like here there) (base : Place) :
    (codes : List Code) → like.Holds (usesAll codes) (runAll here base codes) (runAll there base codes)
  | [] => by
    simp only [runAll]
    exact like.pure _
  | code :: codes => by
    simp only [runAll]
    exact like.bind (run_alike alike base code) fun _ =>
      like.andThen (runAll_alike alike base codes) fun _ => like.pure _

theorem runText_alike (alike : Setting.Alike like here there) (base : Place) : (strings : List String) →
    (codes : List Code) →
      like.Holds (usesAll codes) (runText here base strings codes) (runText there base strings codes)
  | strings, [] => by
    cases strings <;> exact like.pure _
  | [], code :: codes => by
    simp only [runText]
    exact like.pure _
  | text :: strings, code :: codes => by
    simp only [runText]
    exact like.bind (run_alike alike base code) fun _ =>
      like.andThen (runText_alike alike base strings codes) fun _ => like.pure _
end

end Code

/-- Evaluations of one program in settings that are alike. -/
theorem Program.evaluate_alike (alike : Setting.Alike like here there) (base : Place)
    (program : Program) :
    like.Holds program.uses (program.evaluate here base) (program.evaluate there base) := by
  cases program with
  | value code =>
    simp only [evaluate]
    exact like.andThen (Code.run_alike alike base code) fun _ => like.pure _
  | pipe exp name args slot =>
    simp only [evaluate]
    exact like.bind (Code.run_alike alike base exp) fun _ =>
      like.bind (Code.runAll_alike alike base args) fun _ =>
        like.andThen (alike.apply slot name _ _) fun _ => like.pure _

end Evaluations

section Relations

open Stateful (Along)

/-- Every access to an application stays within a relation. -/
structure Host.Along (host : Host σ) (S : σ → σ → Prop) : Prop where
  call : ∀ f args, Stateful.Along S (host.call f args)
  readField : ∀ ref name, Stateful.Along S (host.readField ref name)
  readKeyed : ∀ ref key, Stateful.Along S (host.readKeyed ref key)
  invoke : ∀ ref name args, Stateful.Along S (host.invoke ref name args)

variable {R : σ × π → σ × π → Prop}

/-- Everything that an evaluation may do outside stays within a relation. -/
structure Setting.Along (setting : Setting σ π) (R : σ × π → σ × π → Prop) : Prop where
  host : ∀ pipes, setting.host.Along fun state after => R (state, pipes) (after, pipes)
  apply : ∀ slot name value args, Stateful.Along R (setting.pipes.apply slot name value args)

theorem Eval.along_access {access : Access σ α}
    (along : ∀ pipes, Along (fun state after => R (state, pipes) (after, pipes)) access) :
    Along R (.access access : Eval σ π α) := by
  rintro ⟨state, pipes⟩
  have accessed := along pipes state
  simp only [Eval.access]
  generalize access state = ended at accessed ⊢
  obtain ⟨result, after⟩ := ended
  cases result <;> exact accessed

variable [Std.Refl R] [Trans R R R] {setting : Setting σ π}

/-- Both computations are the same one, and it stays within a relation. -/
def Eval.Likeness.along (R : σ × π → σ × π → Prop) [Std.Refl R] [Trans R R R] :
    Likeness σ π σ π where
  Holds _ computation _ := Along R computation
  ofExcept _ := .of_same fun _ => rfl
  bind := Along.bind
  mono along _ := along

theorem Host.alike_of_along
    (along : ∀ pipes, setting.host.Along fun state after => R (state, pipes) (after, pipes)) :
    Host.Alike (.along R) setting.host setting.host where
  call f args := Eval.along_access fun pipes => (along pipes).call f args
  readField ref name := Eval.along_access fun pipes => (along pipes).readField ref name
  readKeyed ref key := Eval.along_access fun pipes => (along pipes).readKeyed ref key
  invoke ref name args := Eval.along_access fun pipes => (along pipes).invoke ref name args

theorem Program.evaluate_along (along : setting.Along R) (base : Place) (program : Program) :
    Along R (program.evaluate setting base) :=
  program.evaluate_alike (.of_scope (Host.alike_of_along along.host) rfl along.apply) base

end Relations
end ChangeWatch
