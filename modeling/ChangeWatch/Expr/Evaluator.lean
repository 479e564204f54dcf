import ChangeWatch.Config
import ChangeWatch.Expr.Code

/-!
Evaluators: a parsed expression together with a way to evaluate it, again and again. Evaluations are
numbered, and each has a place of its own for the containers that it makes.
-/
namespace ChangeWatch

inductive Evaluator where
  | interpreter (source : Source)
  | compiled (source : Source) (program : Program)

namespace Evaluator

def source : Evaluator → Source
  | interpreter source => source
  | compiled source _ => source

/-- An evaluator with a place of its own. Code is prepared in the place of the first evaluation. -/
def make (strategy : Strategy) (source : Source) (place : Place) : Evaluator :=
  match strategy with
  | .interpreted => interpreter source
  | .compiled => compiled source (Program.ofExpr (.part 0 place) source.expr)

/-- The evaluation with the given number. -/
def evaluate (evaluator : Evaluator) (setting : Setting σ π) (place : Place) (number : Nat) :
    Eval σ π Outcome :=
  match evaluator with
  | interpreter source => source.expr.evaluate setting (.part number place)
  | compiled _ program => program.evaluate setting (.part number place)

/-- How prepared code is shown to a developer. -/
def debugCompiled (source : Source) : String :=
  "Compiled \x7b source: " ++ Text.quote source.text ++ ", .. \x7d"

end Evaluator
end ChangeWatch
