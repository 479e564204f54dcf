import ChangeWatch.Proofs.Strategies

/-!
Only the names that an expression mentions matter. Two chains of locals that give every bare name of an
expression the same meaning are not told apart by it, whatever it asks of host and pipes and whatever the
strategy. A name means what the innermost frame that binds it says, and the context has no part in it.
-/
namespace ChangeWatch

namespace Expr

mutual
/-- The names that are read or called on the implicit receiver, anywhere in an expression. -/
def bareNames : Expr → List String
  | implicit | literal _ => []
  | property receiver name => if receiver.isImplicit then [name] else receiver.bareNames
  | keyed receiver key => receiver.bareNames ++ key.bareNames
  | method receiver name args =>
    (if receiver.isImplicit then [name] else receiver.bareNames) ++ bareNamesAll args
  | apply target args => target.bareNames ++ bareNamesAll args
  | unary _ operand => operand.bareNames
  | binary _ left right => left.bareNames ++ right.bareNames
  | conditional condition yes no => condition.bareNames ++ (yes.bareNames ++ no.bareNames)
  | array items => bareNamesAll items
  | map entries => bareNamesEntries entries
  | pipe exp _ args _ => exp.bareNames ++ bareNamesAll args
  | interpolation _ expressions => bareNamesAll expressions

def bareNamesAll : List Expr → List String
  | [] => []
  | e :: es => e.bareNames ++ bareNamesAll es

def bareNamesEntries : List (String × Expr) → List String
  | [] => []
  | (_, e) :: entries => e.bareNames ++ bareNamesEntries entries
end

end Expr

namespace Locals

/-- Two chains that give the same meaning to some names. -/
def Alike (names : List String) (here there : Locals) : Prop :=
  ∀ name ∈ names, here.resolve? name = there.resolve? name

variable {inner outer : Locals} {frame : Entries Value} {name : String} {value : Value}

/-- Frames that do not bind a name do not hide it. -/
theorem resolve?_append_unbound (unbound : ∀ frame ∈ inner, Entries.get? frame name = none) :
    (inner ++ outer).resolve? name = outer.resolve? name := by
  induction inner with
  | nil => rfl
  | cons frame inner ih =>
    obtain ⟨here, others⟩ := List.forall_mem_cons.mp unbound
    rw [List.cons_append, resolve?, here]
    exact ih others

/-- The innermost frame that binds a name gives it its meaning. -/
theorem resolve?_append_bound (unbound : ∀ frame ∈ inner, Entries.get? frame name = none)
    (bound : Entries.get? frame name = some value) :
    (inner ++ frame :: outer).resolve? name = some value := by
  rw [resolve?_append_unbound unbound, resolve?, bound]

/-- Frames that bind a name to what it means already change nothing about it. -/
theorem resolve?_append_same (same : ∀ frame ∈ inner, ∀ value,
    Entries.get? frame name = some value → outer.resolve? name = some value) :
    (inner ++ outer).resolve? name = outer.resolve? name := by
  induction inner with
  | nil => rfl
  | cons frame inner ih =>
    obtain ⟨here, others⟩ := List.forall_mem_cons.mp same
    rw [List.cons_append, resolve?]
    cases bound : Entries.get? frame name with
    | none => exact ih others
    | some value => exact (here value bound).symm

end Locals

namespace Setting

/-- The same setting with other locals. -/
def within (setting : Setting σ π) (locals : Locals) : Setting σ π :=
  { setting with scope := { setting.scope with locals } }

variable (setting : Setting σ π) (locals : Locals)

theorem noted_within : (setting.within locals).noted = setting.noted.within locals := rfl

end Setting

/-- Computations that are equal. -/
def Eval.Likeness.equal : Likeness σ π σ π where
  Holds _ here there := here = there
  ofExcept _ := rfl
  bind := by
    rintro _ _ _ _ here _ next nextThere rfl same
    rw [show next = nextThere from funext same]
  mono same _ := same

/-- A use that two chains of locals do not tell apart: of a pipe, or of a name that means the same. -/
def Locals.SameFor (here there : Locals) (use : Use) : Prop :=
  ∀ name, use = .name name → here.resolve? name = there.resolve? name

/-- Whatever code uses, it finds the same where the names in it mean the same. -/
theorem Setting.within_alike (setting : Setting σ π) (here there : Locals) :
    Setting.Alike (Eval.Likeness.equal.given (here.SameFor there)) (setting.within here)
      (setting.within there) where
  host := ⟨fun _ _ _ => rfl, fun _ _ _ => rfl, fun _ _ _ => rfl, fun _ _ _ _ => rfl⟩
  context := rfl
  readName name alike := by
    have same := alike _ List.mem_cons_self name rfl
    change Eval.access _ = Eval.access _
    simp only [Scope.readName, Setting.within, same]
  callName name args alike := by
    have same := alike _ List.mem_cons_self name rfl
    change Eval.access _ = Eval.access _
    simp only [Scope.callName, Setting.within, same]
  apply _ _ _ _ _ := rfl

namespace Expr

open Code

variable (origin : Place) {name : String}

mutual
/-- Code uses no names that its expression does not mention. -/
theorem name_of_lower (path : List Nat) : (e : Expr) →
    .name name ∈ (e.lower origin path).uses → name ∈ e.bareNames
  | implicit | literal _ => nofun
  | property receiver name' => by
    rw [lower, bareNames]
    split
    · simp [uses]
    · exact name_of_lower (0 :: path) receiver
  | keyed receiver key => by
    simp only [lower, uses, bareNames, List.mem_append]
    exact Or.imp (name_of_lower _ receiver) (name_of_lower _ key)
  | method receiver name' args => by
    have given := nameAll_of_lower path 1 args
    rw [lower, bareNames]
    split
    · simp only [uses, List.mem_append, List.mem_singleton, Use.name.injEq]
      exact fun used => used.symm.imp_right given
    · simp only [uses, List.mem_append]
      exact Or.imp (name_of_lower _ receiver) given
  | apply target args => by
    simp only [lower, uses, bareNames, List.mem_append]
    exact Or.imp (name_of_lower _ target) (nameAll_of_lower path 1 args)
  | unary op operand => by
    rw [lower, uses_ofUnary]
    exact name_of_lower _ operand
  | binary op left right => by
    simp only [lower, uses_ofBinary, bareNames, List.mem_append]
    exact Or.imp (name_of_lower _ left) (name_of_lower _ right)
  | conditional condition yes no => by
    intro used
    have used := (uses_lower_conditional origin path condition yes no).subset used
    simp only [List.mem_append] at used
    simp only [bareNames, List.mem_append]
    exact used.imp (name_of_lower _ condition) (Or.imp (name_of_lower _ yes) (name_of_lower _ no))
  | array items => by
    rw [uses_lower_array]
    exact nameAll_of_lower path 0 items
  | map entries => by
    rw [uses_lower_map]
    exact nameEntries_of_lower path 0 entries
  | pipe exp _ args slot => by
    simp only [lower, uses, bareNames, List.mem_append, List.mem_singleton, reduceCtorEq, or_false]
    exact Or.imp (name_of_lower _ exp) (nameAll_of_lower path 1 args)
  | interpolation strings expressions => by
    simp only [lower, uses, bareNames]
    exact nameAll_of_lower path 0 expressions

theorem nameAll_of_lower (path : List Nat) (index : Nat) : (es : List Expr) →
    .name name ∈ usesAll (lowerAll origin path index es) → name ∈ bareNamesAll es
  | [] => nofun
  | e :: es => by
    simp only [lowerAll, usesAll, bareNamesAll, List.mem_append]
    exact Or.imp (name_of_lower _ e) (nameAll_of_lower path (index + 1) es)

theorem nameEntries_of_lower (path : List Nat) (index : Nat) : (entries : List (String × Expr)) →
    .name name ∈ usesAll (lowerEntries origin path index entries) → name ∈ bareNamesEntries entries
  | [] => nofun
  | (_, e) :: entries => by
    simp only [lowerEntries, usesAll, bareNamesEntries, List.mem_append]
    exact Or.imp (name_of_lower _ e) (nameEntries_of_lower path (index + 1) entries)
end

end Expr

open Locals (Alike)

theorem Program.evaluate_within (setting : Setting σ π) (origin base : Place) {here there : Locals} (e : Expr)
    (alike : Alike e.bareNames here there) :
    (Program.ofExpr origin e).evaluate (setting.within here) base =
      (Program.ofExpr origin e).evaluate (setting.within there) base := by
  refine (Program.ofExpr origin e).evaluate_alike (setting.within_alike here there) base ?_
  rintro _ used name rfl
  rw [Program.uses_ofExpr] at used
  exact alike name (Expr.name_of_lower origin [] e used)

namespace Evaluator

/-- An evaluation that cannot tell two chains of locals apart: it has the same outcome and leaves the same
states, and when its requests are noted they are the same in the same order. -/
structure Blind (evaluator : Evaluator) (setting : Setting σ π) (place : Place) (number : Nat)
    (here there : Locals) : Prop where
  same : evaluator.evaluate (setting.within here) place number =
    evaluator.evaluate (setting.within there) place number
  requests : evaluator.evaluate (setting.within here).noted place number =
    evaluator.evaluate (setting.within there).noted place number

theorem blind_of_alike (strategy : Strategy) (source : Source) (setting : Setting σ π) (place : Place)
    (number : Nat) {here there : Locals} (alike : Alike source.expr.bareNames here there) :
    Blind (make strategy source place) setting place number here there := by
  obtain ⟨origin, code⟩ := evaluate_make strategy source place number
  constructor
  · rw [code, code, Program.evaluate_within setting origin _ source.expr alike]
  · rw [code, code, Setting.noted_within, Setting.noted_within,
      Program.evaluate_within setting.noted origin _ source.expr alike]

/-- Only the names that an expression mentions matter. An evaluation does the same in two chains of locals
that give these names the same meaning, as it does when frames are entered that leave them their meaning;
and a frame that binds a name hides from reads and calls whatever frames and context behind it say. -/
theorem only_names_matter (strategy : Strategy) (source : Source) (setting : Setting σ π) (place : Place)
    (number : Nat) :
    (∀ here there, (∀ name ∈ source.expr.bareNames, here.resolve? name = there.resolve? name) →
      Blind (make strategy source place) setting place number here there) ∧
    (∀ inner outer : Locals, (∀ frame ∈ inner, ∀ name ∈ source.expr.bareNames, ∀ value,
        Entries.get? frame name = some value → outer.resolve? name = some value) →
      Blind (make strategy source place) setting place number (inner ++ outer) outer) ∧
    ∀ (inner outer : Locals) (frame : Entries Value) name value,
      (∀ frame ∈ inner, Entries.get? frame name = none) → Entries.get? frame name = some value →
      ∀ context : Value,
        Scope.readName { context, locals := inner ++ frame :: outer } setting.host name = pure value ∧
        ∀ args, Scope.callName { context, locals := inner ++ frame :: outer } setting.host name args =
          value.call setting.host name args := by
  refine ⟨fun here there alike => ?_, fun inner outer same => ?_, ?_⟩
  · exact blind_of_alike strategy source setting place number alike
  · refine blind_of_alike strategy source setting place number fun name mentioned => ?_
    exact Locals.resolve?_append_same fun frame entered => same frame entered name mentioned
  · intro inner outer frame name value unbound bound context
    have found : (inner ++ frame :: outer).resolve? name = some value :=
      Locals.resolve?_append_bound unbound bound
    exact ⟨by simp only [Scope.readName, found], fun args => by simp only [Scope.callName, found]⟩

namespace Samples

/-- A function that counts its calls and gives its argument back, in a context with names of its own. -/
def counting : Setting Nat Unit where
  host := .ofFields (fun _ args calls => (.ok (args.headD .null), calls + 1))
    (fun _ _ => throw (.host "no object")) (fun _ _ => []) (fun _ => 0)
  pipes := .none
  scope := { context := .map (.host 0) [("item", .int 2), ("show", .function ⟨0⟩)] }

def shown : Source :=
  { expr := .method .implicit "show" [.name "item"], text := "show(item)", location := "view", slots := 0 }

/-- The item of a loop. -/
def loop : Locals := [[("item", .int 1)]]

/-- A loop inside it that has an index of its own, and one that has the same item. -/
def nested : Locals := [[("index", .int 7)], [("item", .int 1)]]

end Samples

open Samples in
theorem only_names_matter_nested :
    Blind (make .compiled shown (.host 1)) counting (.host 1) 3 (nested ++ loop) loop ∧
      Scope.readName { context := counting.scope.context, locals := nested ++ [("show", .null)] :: loop }
        counting.host "show" = pure .null ∧
      (make .compiled shown (.host 1)).evaluate (counting.within loop) (.host 1) 3 (0, ()) =
        (.ok (.value (.int 1)), 1, ()) := by
  obtain ⟨-, entered, hidden⟩ := only_names_matter .compiled shown counting (.host 1) 3
  have same : ∀ frame ∈ nested, ∀ name ∈ shown.expr.bareNames, ∀ value,
      Entries.get? frame name = some value → loop.resolve? name = some value := by
    have names : shown.expr.bareNames = ["show", "item"] := by decide
    simp [nested, names, Entries.get?, loop, Locals.resolve?]
  refine ⟨entered nested loop same, ?_, rfl⟩
  exact (hidden nested loop [("show", .null)] "show" .null (by decide) rfl _).1

end Evaluator
end ChangeWatch
