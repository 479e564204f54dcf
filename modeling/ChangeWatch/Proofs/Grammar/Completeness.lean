import ChangeWatch.Proofs.Grammar.Phrases
import ChangeWatch.Proofs.Grammar.Production

/-!
What is in the grammar is found. The parser of a category takes a phrase of it and stops behind it, when
what follows the phrase does not go on with it: neither with its ending nor as a looser part of a phrase.
-/
namespace ChangeWatch.Grammar

open Parse (Continues Extends Gives)
open Token (symbol ident)

/-- How loose the parts are that a symbol joins. Other symbols do not go on with any phrase. -/
def looseness : Symbol → Nat
  | .dot | .leftBracket | .leftParen => 1
  | .bar => 2
  | .star | .slash | .percent => 3
  | .plus | .minus => 4
  | .less | .greater | .lessEqual | .greaterEqual => 5
  | .equal | .notEqual | .strictEqual | .strictNotEqual => 6
  | .and => 7
  | .or => 8
  | .question => 9
  | .bang | .colon | .comma | .rightParen | .rightBracket | .leftBrace | .rightBrace => 10

def Level.looseness : Level → Nat
  | multiplicative => 3
  | additive => 4
  | relational => 5
  | equality => 6
  | conjunction => 7
  | disjunction => 8

/-- How loose the parts of a phrase are at most. -/
def Category.looseness : Category α → Nat
  | .primary => 0
  | .member => 1
  | .pipeline | .unary => 2
  | .binary level => level.looseness
  | _ => 9

/-- Tokens that do not go on with a phrase. -/
def Category.Ends (category : Category α) (ending : Ending) (tokens : List Token) : Prop :=
  ∀ sign, tokens.head? = some (symbol sign) →
    category.looseness < Grammar.looseness sign ∧ ending.takes sign = false

theorem Category.looseness_le (category : Category α) : category.looseness ≤ 9 := by
  cases category with
  | binary level => cases level <;> decide
  | _ => simp only [looseness]; omega

theorem looseness_of_operatorOf {level : Level} {sign : Symbol} {op : BinaryOp}
    (known : level.operatorOf sign = some op) : looseness sign = level.looseness := by
  cases level <;> cases sign <;> first | rfl | cases known

namespace Category.Ends

variable {category : Category α} {ending : Ending} {rest : List Token}

theorem of_head {sign : Symbol} (looser : category.looseness < Grammar.looseness sign)
    (stops : ending.takes sign = false) : category.Ends ending (symbol sign :: rest) := by
  rintro other ⟨⟩
  exact ⟨looser, stops⟩

theorem mono {other : Category β} (ends : category.Ends ending rest)
    (tighter : other.looseness ≤ category.looseness) : other.Ends ending rest :=
  fun sign first => ⟨Nat.lt_of_le_of_lt tighter (ends sign first).1, (ends sign first).2⟩

theorem right (bracket : Bracket) : category.Ends ending (symbol bracket.right :: rest) := by
  refine of_head (Nat.lt_of_le_of_lt category.looseness_le ?_) ?_
  · cases bracket <;> decide
  · cases bracket <;> cases ending <;> rfl

theorem comma : category.Ends ending (symbol .comma :: rest) :=
  of_head (Nat.lt_of_le_of_lt category.looseness_le (by decide)) (by cases ending <;> rfl)

theorem colon (open_ : ending ≠ .pipe) : category.Ends ending (symbol .colon :: rest) := by
  refine of_head (Nat.lt_of_le_of_lt category.looseness_le (by decide)) ?_
  cases ending <;> first | rfl | exact absurd rfl open_

theorem operator {level : Level} {sign : Symbol} {op : BinaryOp}
    (known : level.operatorOf sign = some op) : level.operand.Ends ending (symbol sign :: rest) := by
  refine of_head ?_ ?_
  · rw [looseness_of_operatorOf known]
    cases level <;> decide
  · cases level <;> cases sign <;> cases known <;> cases ending <;> rfl

/-- A symbol that does not go on with the phrase is not the next one. -/
theorem head_ne {sign : Symbol} (ends : category.Ends ending rest)
    (goes : Grammar.looseness sign ≤ category.looseness ∨ ending.takes sign = true) :
    rest.head? ≠ some (symbol sign) := by
  intro first
  obtain ⟨looser, stops⟩ := ends sign first
  rcases goes with tight | taken
  · omega
  · rw [taken] at stops
    cases stops

end Category.Ends

/-- The parser of the items between commas. -/
def Item.parser (depth : Nat) : Item α → Parse α
  | expression => expressionWithin depth
  | entry => Grammar.entry (expressionWithin depth)

/-- The parser of the operands of a level. -/
def Level.tighter (nested : Parse Expr) : Level → Parse Expr
  | disjunction => Grammar.conjunction nested
  | conjunction => Grammar.equality nested
  | equality => Grammar.relational nested
  | relational => Grammar.additive nested
  | additive => Grammar.multiplicative nested
  | multiplicative => Grammar.signed nested

def Level.parser (nested : Parse Expr) (level : Level) : Parse Expr :=
  Grammar.level level.operatorOf (level.tighter nested)

section Steps

/-!
The steps that the parsers repeat.
-/

variable (nested : Parse Expr)

open Parse

def itemStep (item : Parse α) (items : List α) : Parse (Option (List α)) := do
  if ← eat .comma then return some (items ++ [← item])
  else return none

def memberStep (receiver : Expr) : Parse (Option Expr) := do
  if ← eat .dot then
    let name ← ident .memberName
    if ← eat .leftParen then return some (.method receiver name (← arguments nested))
    else return some (.property receiver name)
  else if ← eat .leftBracket then
    let key ← nested
    expect .rightBracket .closingBracket
    return some (.keyed receiver key)
  else if ← eat .leftParen then return some (.apply receiver (← arguments nested))
  else return none

def argumentStep (args : List Expr) : Parse (Option (List Expr)) := do
  if ← eat .colon then return some (args ++ [← member nested])
  else return none

def pipeStep (exp : Expr) : Parse (Option Expr) := do
  if ← eat .bar then
    let name ← ident .pipeName
    let args ← pipeArguments nested
    return some (.pipe exp name args (← slot))
  else return none

def signStep (signs : List UnaryOp) : Parse (Option (List UnaryOp)) := do
  match ← operator? signOf with
  | some op => return some (signs ++ [op])
  | none => return none

def levelStep (level : Level) (left : Expr) : Parse (Option Expr) := do
  match ← operator? level.operatorOf with
  | some op => return some (.binary op left (← level.tighter nested))
  | none => return none

theorem sequence_eq (item : Parse α) (close : Symbol) (expected : Expected) :
    sequence item close expected = (do
      if ← eat close then return []
      else
        let items ← item >>= fun first => extend (itemStep item) [first]
        expect close expected
        return items) := by
  simp only [Parse.sequence, bind_assoc]
  rfl

end Steps

/-- What it says of the phrases of a category that they are found. Where phrases go on to the right, the
parser has come to a phrase when it has still to look for more. -/
def Complete : {α : Type} → Category α → List Token → Nat → α → Ending → Nat → Prop
  | _, .conditional, tokens, start, e, ending, stop => ∀ depth rest, tokens.length < depth →
    Category.conditional.Ends ending rest →
      Gives (expressionWithin depth) (tokens ++ rest, start) e (rest, stop)
  | _, .binary level, tokens, start, e, ending, stop => ∀ depth rest, tokens.length ≤ depth →
    level.operand.Ends ending rest →
      Continues (level.parser (expressionWithin depth)) (tokens ++ rest, start)
        (levelStep (expressionWithin depth) level) e (rest, stop)
  | _, .unary, tokens, start, e, ending, stop => ∀ depth rest, tokens.length ≤ depth →
    Category.unary.Ends ending rest → ∀ signs steps, (tokens ++ rest).length ≤ steps →
      Gives (Parse.iterate signStep steps signs >>= fun signs =>
          pipeline (expressionWithin depth) >>= fun e => pure (signs.foldr Expr.unary e))
        (tokens ++ rest, start) (signs.foldr Expr.unary e) (rest, stop)
  | _, .pipeline, tokens, start, e, ending, stop => ∀ depth rest, tokens.length ≤ depth →
    Category.member.Ends ending rest →
      Continues (pipeline (expressionWithin depth)) (tokens ++ rest, start)
        (pipeStep (expressionWithin depth)) e (rest, stop)
  | _, .member, tokens, start, e, ending, stop => ∀ depth rest, tokens.length ≤ depth →
    Category.primary.Ends ending rest →
      Continues (member (expressionWithin depth)) (tokens ++ rest, start)
        (memberStep (expressionWithin depth)) e (rest, stop)
  | _, .primary, tokens, start, e, ending, stop => ∀ depth rest, tokens.length ≤ depth →
    Category.primary.Ends ending rest →
      Gives (primary (expressionWithin depth)) (tokens ++ rest, start) e (rest, stop)
  | _, .arguments, tokens, start, es, _, stop => ∀ depth rest, tokens.length ≤ depth →
    Category.member.Ends .closed rest →
      Continues (pipeArguments (expressionWithin depth)) (tokens ++ rest, start)
        (argumentStep (expressionWithin depth)) es (rest, stop)
  | _, .entry, tokens, start, entry, ending, stop => ∀ depth rest, tokens.length < depth →
    Category.conditional.Ends ending rest →
      Gives (Grammar.entry (expressionWithin depth)) (tokens ++ rest, start) entry (rest, stop)
  | _, .items item, tokens, start, values, ending, stop => ∀ depth rest, tokens.length < depth →
    Category.conditional.Ends ending rest →
      Continues (item.parser depth >>= fun first => Parse.extend (itemStep (item.parser depth)) [first])
        (tokens ++ rest, start) (itemStep (item.parser depth)) values (rest, stop)
  | _, .enclosed item bracket, tokens, start, values, _, stop => ∀ depth rest expected,
    tokens.length ≤ depth →
      Gives (Parse.sequence (item.parser depth) bracket.right expected) (tokens ++ rest, start) values
        (rest, stop)

namespace Complete

variable {tokens others more : List Token} {start middle last stop : Nat} {ending former first : Ending}
  {e k e' e'' : Expr} {es : List Expr}

/-- The token in front decides what a primary phrase is. -/
theorem primary_gives {nested : Parse Expr} {token : Token} {stop : Parse.Point} (start : Parse.Point)
    (after : ∀ first : Spanned, first.token = token → Gives (primaryAfter nested first) start e stop) :
    Gives (primary nested) (token :: start.1, start.2) e stop := by
  rintro ⟨rest, slots⟩ ⟨same, slot⟩
  cases rest with
  | nil => cases same
  | cons first rest =>
    obtain ⟨here, left⟩ := List.cons.inj same
    exact after first here { rest, slots } ⟨left, slot⟩

theorem literal {token : Token} {value : Value} (constant : token.literal? = some value) (start : Nat) :
    Complete .primary [token] start (.literal value) .closed start := by
  intro depth rest _ _
  refine primary_gives (rest, start) fun first here => ?_
  obtain ⟨found, _, _⟩ := first
  obtain rfl : found = token := here
  cases found with
  | keyword word => cases word <;> cases constant <;> exact .pure _ _
  | int | float | str =>
    cases constant
    exact .pure _ _
  | ident | symbol => cases constant

theorem name (name : String) (start : Nat) :
    Complete .primary [ident name] start (.name name) .name start := by
  intro depth rest _ ends
  refine primary_gives (rest, start) fun first here => ?_
  simp only [primaryAfter, here]
  exact .ifEat_other (ends.head_ne (.inr rfl)) (.pure _ _)

theorem call (name : String)
    (args : Complete (.enclosed .expression .round) tokens start es ending stop) :
    Complete .primary (ident name :: symbol .leftParen :: tokens) start
      (.method .implicit name es) .closed stop := by
  intro depth rest fits _
  refine primary_gives (symbol .leftParen :: tokens ++ rest, start) fun first here => ?_
  simp only [primaryAfter, here]
  have fits : tokens.length ≤ depth := by simp at fits; omega
  exact .ifEat_here (.bind (args depth rest _ fits) (.pure _ _))

theorem group (inside : Complete .conditional tokens start e ending stop) :
    Complete .primary (symbol .leftParen :: tokens ++ [symbol .rightParen]) start e .closed stop := by
  intro depth rest fits _
  refine primary_gives (tokens ++ [symbol .rightParen] ++ rest, start) fun first here => ?_
  simp only [primaryAfter, here, List.append_assoc]
  have fits : tokens.length < depth := by simp at fits; omega
  exact .bind (inside depth _ fits (.right .round)) (.bind (.expect _) (.pure _ _))

theorem array (items : Complete (.enclosed .expression .square) tokens start es ending stop) :
    Complete .primary (symbol .leftBracket :: tokens) start (.array es) .closed stop := by
  intro depth rest fits _
  refine primary_gives (tokens ++ rest, start) fun first here => ?_
  simp only [primaryAfter, here]
  have fits : tokens.length ≤ depth := by simp at fits; omega
  exact .bind (items depth rest _ fits) (.pure _ _)

theorem map {pairs : List (String × Expr)}
    (entries : Complete (.enclosed .entry .curly) tokens start pairs ending stop) :
    Complete .primary (symbol .leftBrace :: tokens) start (.map pairs) .closed stop := by
  intro depth rest fits _
  refine primary_gives (tokens ++ rest, start) fun first here => ?_
  simp only [primaryAfter, here]
  have fits : tokens.length ≤ depth := by simp at fits; omega
  exact .bind (entries depth rest _ fits) (.pure _ _)

theorem entry {token : Token} {key : String} (named : token.key? = some key)
    (value : Complete .conditional tokens start e ending stop) :
    Complete .entry (token :: symbol .colon :: tokens) start (key, e) ending stop := by
  intro depth rest fits ends
  have found : Gives entry.key (token :: symbol .colon :: (tokens ++ rest), start) key
      (symbol .colon :: (tokens ++ rest), start) := by
    rintro ⟨rest, slots⟩ ⟨same, slot⟩
    cases rest with
    | nil => cases same
    | cons first rest =>
      obtain ⟨found, _, _⟩ := first
      obtain ⟨here, left⟩ := List.cons.inj same
      obtain rfl : found = token := here
      refine ⟨{ rest, slots }, ?_, left, slot⟩
      cases found with
      | ident | str =>
        cases named
        rfl
      | _ => cases named
  have fits : tokens.length < depth := by simp at fits; omega
  exact found.bind (.bind (.expect _) (.bind (value depth rest fits ends) (.pure _ _)))

theorem one {item : Item α} {value : α}
    (gives : ∀ depth rest, tokens.length < depth → Category.conditional.Ends ending rest →
      Gives (item.parser depth) (tokens ++ rest, start) value (rest, stop)) :
    Complete (.items item) tokens start [value] ending stop :=
  fun depth rest fits ends => .first (gives depth rest fits ends)

theorem item_gives {item : Item α} {value : α}
    (complete : Complete item.category tokens start value ending stop) (depth : Nat) (rest : List Token)
    (fits : tokens.length < depth) (ends : Category.conditional.Ends ending rest) :
    Gives (item.parser depth) (tokens ++ rest, start) value (rest, stop) := by
  cases item with
  | expression => exact complete depth rest fits ends
  | entry => exact complete depth rest fits ends

theorem more_items {item : Item α} {values : List α} {value : α}
    (before : Complete (.items item) tokens start values former middle)
    (last : ∀ depth rest, others.length < depth → Category.conditional.Ends ending rest →
      Gives (item.parser depth) (others ++ rest, middle) value (rest, stop)) :
    Complete (.items item) (tokens ++ symbol .comma :: others) start (values ++ [value]) ending
      stop := by
  intro depth rest fits ends
  rw [List.length_append, List.length_cons] at fits
  rw [List.append_assoc]
  have found := before depth (symbol .comma :: (others ++ rest)) (by omega) .comma
  refine found.more ?_ (by simp only [List.length_append, List.length_cons]; omega)
  exact .ifEat_here (.bind (last depth rest (by omega) ends) (.pure _ _))

theorem empty (item : Item α) (bracket : Bracket) (start : Nat) :
    Complete (.enclosed item bracket) [symbol bracket.right] start [] .closed start :=
  fun _ _ _ _ => .ifEat_here (.pure _ _)

theorem filled {item : Item α} {values : List α} (bracket : Bracket)
    (starts : (Category.items item).Starts tokens)
    (items : Complete (.items item) tokens start values ending stop) :
    Complete (.enclosed item bracket) (tokens ++ [symbol bracket.right]) start values .closed
      stop := by
  intro depth rest expected fits
  rw [List.length_append, List.length_singleton] at fits
  rw [List.append_assoc, sequence_eq]
  have opens : (tokens ++ ([symbol bracket.right] ++ rest)).head? ≠ some (symbol bracket.right) := by
    obtain ⟨token, behind, rfl, starts⟩ := starts
    rintro ⟨⟩
    exact right_not_first bracket starts
  have ends : Gives (itemStep (item.parser depth) values) (symbol bracket.right :: rest, stop) none
      (symbol bracket.right :: rest, stop) :=
    .ifEat_other (by cases bracket <;> nofun) (.pure _ _)
  have found := items depth (symbol bracket.right :: rest) (by omega) (.right bracket)
  exact .ifEat_other opens (.bind (found.done ends) (.bind (.expect _) (.pure _ _)))

theorem operand (alone : Complete .primary tokens start e ending stop) :
    Complete .member tokens start e ending stop :=
  fun depth rest fits ends => .first (alone depth rest fits ends)

theorem property (name : String) (receiver : Complete .member tokens start e ending stop) :
    Complete .member (tokens ++ [symbol .dot, ident name]) start (.property e name) .name stop := by
  intro depth rest fits ends
  rw [List.length_append] at fits
  rw [List.append_assoc]
  have before := receiver depth (symbol .dot :: ident name :: rest) (by omega)
    (.of_head (by decide) (by cases ending <;> rfl))
  refine before.more ?_ (by simp only [List.length_cons]; omega)
  exact .ifEat_here (.bind (.ident name _) (.ifEat_other (ends.head_ne (.inr rfl)) (.pure _ _)))

theorem method (name : String) (receiver : Complete .member tokens start e former middle)
    (args : Complete (.enclosed .expression .round) others middle es ending stop) :
    Complete .member (tokens ++ symbol .dot :: ident name :: symbol .leftParen :: others) start
      (.method e name es) .closed stop := by
  intro depth rest fits _
  simp only [List.length_append, List.length_cons] at fits
  rw [List.append_assoc]
  have before := receiver depth (symbol .dot :: ident name :: symbol .leftParen :: (others ++ rest))
    (by omega) (.of_head (by decide) (by cases former <;> rfl))
  refine before.more ?_ (by simp only [List.length_append, List.length_cons]; omega)
  exact .ifEat_here (.bind (.ident name _)
    (.ifEat_here (.bind (args depth rest _ (by omega)) (.pure _ _))))

theorem keyed (receiver : Complete .member tokens start e former middle)
    (key : Complete .conditional others middle k ending stop) :
    Complete .member (tokens ++ symbol .leftBracket :: others ++ [symbol .rightBracket]) start
      (.keyed e k) .closed stop := by
  intro depth rest fits _
  simp only [List.length_append, List.length_cons] at fits
  simp only [List.append_assoc, List.cons_append, List.nil_append]
  have before := receiver depth (symbol .leftBracket :: (others ++ symbol .rightBracket :: rest))
    (by omega) (.of_head (by decide) (by cases former <;> rfl))
  refine before.more ?_ (by simp only [List.length_append, List.length_cons]; omega)
  exact .ifEat_other nofun (.ifEat_here (.bind (key depth _ (by omega) (.right .square))
    (.bind (.expect _) (.pure _ _))))

theorem apply (target : Complete .member tokens start e former middle) (value : former ≠ .name)
    (args : Complete (.enclosed .expression .round) others middle es ending stop) :
    Complete .member (tokens ++ symbol .leftParen :: others) start (.apply e es) .closed stop := by
  intro depth rest fits _
  simp only [List.length_append, List.length_cons] at fits
  rw [List.append_assoc]
  have stops : former.takes .leftParen = false := by
    cases former <;> first | rfl | exact absurd rfl value
  have before := target depth (symbol .leftParen :: (others ++ rest)) (by omega)
    (.of_head (by decide) stops)
  refine before.more ?_ (by simp only [List.length_append, List.length_cons]; omega)
  exact .ifEat_other nofun (.ifEat_other nofun (.ifEat_here
    (.bind (args depth rest _ (by omega)) (.pure _ _))))

/-- No member is left where a member phrase ends. -/
theorem member_gives (complete : Complete .member tokens start e ending stop) {depth : Nat}
    {rest : List Token} (fits : tokens.length ≤ depth) (ends : Category.member.Ends ending rest) :
    Gives (member (expressionWithin depth)) (tokens ++ rest, start) e (rest, stop) := by
  refine (complete depth rest fits (ends.mono (by decide))).done ?_
  exact .ifEat_other (ends.head_ne (.inl (by decide))) (.ifEat_other (ends.head_ne (.inl (by decide)))
    (.ifEat_other (ends.head_ne (.inl (by decide))) (.pure _ _)))

theorem noArgument (start : Nat) : Complete .arguments [] start [] .closed start :=
  fun _ _ _ _ => .extend _ _ _

theorem argument (before : Complete .arguments tokens start es former middle)
    (last : Complete .member others middle e ending stop) (closed : ending ≠ .pipe) :
    Complete .arguments (tokens ++ symbol .colon :: others) start (es ++ [e]) .closed stop := by
  intro depth rest fits ends
  simp only [List.length_append, List.length_cons] at fits
  rw [List.append_assoc]
  have ends' : Category.member.Ends ending rest := by
    intro sign first
    obtain ⟨looser, -⟩ := ends sign first
    refine ⟨looser, ?_⟩
    cases ending with
    | name => cases sign <;> first | rfl | exact absurd looser (by decide)
    | pipe => exact absurd rfl closed
    | closed => cases sign <;> rfl
  have found := before depth (symbol .colon :: (others ++ rest)) (by omega)
    (.of_head (by decide) rfl)
  refine found.more ?_ (by simp only [List.length_append, List.length_cons]; omega)
  exact .ifEat_here (.bind (last.member_gives (by omega) ends') (.pure _ _))

theorem unpiped (alone : Complete .member tokens start e ending stop) :
    Complete .pipeline tokens start e ending stop :=
  fun _ _ fits ends => .first (alone.member_gives fits ends)

theorem pipe (name : String) (input : Complete .pipeline tokens start e former middle)
    (args : Complete .arguments others middle es ending stop) :
    Complete .pipeline (tokens ++ symbol .bar :: ident name :: others) start
      (.pipe e name es stop) .pipe (stop + 1) := by
  intro depth rest fits ends
  simp only [List.length_append, List.length_cons] at fits
  rw [List.append_assoc]
  have before := input depth (symbol .bar :: ident name :: (others ++ rest)) (by omega)
    (.of_head (by decide) (by cases former <;> rfl))
  have ends' : Category.member.Ends .closed rest := fun sign first =>
    ⟨(ends sign first).1, by cases sign <;> rfl⟩
  have found : Gives (pipeArguments (expressionWithin depth)) (others ++ rest, middle) es
      (rest, stop) :=
    (args depth rest (by omega) ends').done (.ifEat_other (ends.head_ne (.inr rfl)) (.pure _ _))
  refine before.more ?_ (by simp only [List.length_append, List.length_cons]; omega)
  exact .ifEat_here (.bind (.ident name _) (.bind found (.bind .slot (.pure _ _))))

theorem unsigned (starts : Category.pipeline.Starts tokens)
    (alone : Complete .pipeline tokens start e ending stop) :
    Complete .unary tokens start e ending stop := by
  intro depth rest fits ends signs steps enough
  have none : Gives (signStep signs) (tokens ++ rest, start) none (tokens ++ rest, start) := by
    refine .bind (.operator?_other fun sign first => ?_) (.pure _ _)
    obtain ⟨token, behind, rfl, starts⟩ := starts
    obtain rfl := Option.some.inj first
    rcases starts with rfl | rfl | rfl <;> rfl
  have found : Gives (pipeline (expressionWithin depth)) (tokens ++ rest, start) e (rest, stop) := by
    refine (alone depth rest fits (ends.mono (by decide))).done ?_
    exact .ifEat_other (ends.head_ne (.inl (by decide))) (.pure _ _)
  have unsigned : Gives (Parse.iterate signStep steps signs) (tokens ++ rest, start) signs
      (tokens ++ rest, start) := by
    cases steps with
    | zero => exact .pure _ _
    | succ steps => exact none.bind (.pure _ _)
  exact unsigned.bind (found.bind (.pure _ _))

theorem signed {sign : Symbol} {op : UnaryOp} (spelled : sign.spelling = op.symbol)
    (signee : Complete .unary tokens start e ending stop) :
    Complete .unary (symbol sign :: tokens) start (.unary op e) ending stop := by
  intro depth rest fits ends signs steps enough
  rw [List.length_cons] at fits
  cases steps with
  | zero => cases enough
  | succ steps =>
    have found := signee depth rest (by omega) ends (signs ++ [op]) steps (by simpa using enough)
    have taken : Gives (signStep signs) (symbol sign :: tokens ++ rest, start) (some (signs ++ [op]))
        (tokens ++ rest, start) :=
      .bind (.operator?_here (signOf_iff.mpr spelled)) (.pure _ _)
    rw [List.foldr_append] at found
    rw [Parse.iterate, bind_assoc]
    exact taken.bind found

/-- Nothing is left of a level where a phrase of it ends. -/
theorem level_gives {level : Level} (complete : Complete (.binary level) tokens start e ending stop)
    {depth : Nat} {rest : List Token} (fits : tokens.length ≤ depth)
    (ends : (Category.binary level).Ends ending rest) :
    Gives (level.parser (expressionWithin depth)) (tokens ++ rest, start) e (rest, stop) := by
  have tighter : level.operand.looseness ≤ level.looseness := by cases level <;> decide
  refine (complete depth rest fits (ends.mono tighter)).done ?_
  refine .bind (.operator?_other fun sign first => ?_) (.pure _ _)
  cases known : level.operatorOf sign with
  | none => rfl
  | some op =>
    have joins := looseness_of_operatorOf known
    have looser : level.looseness < looseness sign := (ends sign first).1
    omega

theorem operand_gives {level : Level} (complete : Complete level.operand tokens start e ending stop)
    {depth : Nat} {rest : List Token} (fits : tokens.length ≤ depth)
    (ends : level.operand.Ends ending rest) :
    Gives (level.tighter (expressionWithin depth)) (tokens ++ rest, start) e (rest, stop) := by
  cases level with
  | multiplicative =>
    intro cursor here
    have left : cursor.tokens = tokens ++ rest := here.1
    have enough : (tokens ++ rest).length ≤ cursor.rest.length := left ▸ cursor.length_tokens_le
    exact complete depth rest fits ends [] cursor.rest.length enough cursor here
  | _ => exact level_gives complete fits ends

theorem single (level : Level) (alone : Complete level.operand tokens start e ending stop) :
    Complete (.binary level) tokens start e ending stop :=
  fun _ _ fits ends => .first (operand_gives alone fits ends)

theorem binary {level : Level} {op : BinaryOp} {sign : Symbol} (among : op ∈ level.operators)
    (spelled : sign.spelling = op.symbol)
    (left : Complete (.binary level) tokens start e former middle)
    (right : Complete level.operand others middle e' ending stop) :
    Complete (.binary level) (tokens ++ symbol sign :: others) start (.binary op e e') ending stop := by
  intro depth rest fits ends
  simp only [List.length_append, List.length_cons] at fits
  rw [List.append_assoc]
  have known := Level.operatorOf_iff.mpr ⟨among, spelled⟩
  have before := left depth (symbol sign :: (others ++ rest)) (by omega) (.operator known)
  refine before.more ?_ (by simp only [List.length_append, List.length_cons]; omega)
  exact .bind (.operator?_here known) (.bind (operand_gives right (by omega) ends) (.pure _ _))

theorem plain (alone : Complete (.binary .disjunction) tokens start e ending stop) :
    Complete .conditional tokens start e ending stop := by
  intro depth rest fits ends
  cases depth with
  | zero => cases fits
  | succ depth =>
    have found := level_gives alone (Nat.le_of_lt_succ fits) (ends.mono (by decide))
    exact found.bind (.ifEat_other (ends.head_ne (.inl (by decide))) (.pure _ _))

theorem choice (condition : Complete (.binary .disjunction) tokens start e first second)
    (yes : Complete .conditional others second e' former third) (admitted : former ≠ .pipe)
    (no : Complete .conditional more third e'' ending stop) :
    Complete .conditional (tokens ++ symbol .question :: others ++ symbol .colon :: more) start
      (.conditional e e' e'') ending stop := by
  intro depth rest fits ends
  simp only [List.length_append, List.length_cons] at fits
  simp only [List.append_assoc, List.cons_append]
  cases depth with
  | zero => cases fits
  | succ depth =>
    let behind := symbol .question :: (others ++ symbol .colon :: (more ++ rest))
    have found : Gives (disjunction (expressionWithin depth)) (tokens ++ behind, start) e
        (behind, second) :=
      level_gives condition (by omega) (.of_head (by decide) (by cases first <;> rfl))
    exact found.bind (.ifEat_here (.bind (yes depth _ (by omega) (.colon admitted))
      (.bind (.expect _) (.bind (no depth rest (by omega) ends) (.pure _ _)))))

end Complete

/-- Every phrase without a pipe between a question mark and its colon is found. -/
theorem Phrase.complete {category : Category α} {value : α}
    (phrase : Phrase (· ≠ .pipe) category tokens start value ending stop) :
    Complete category tokens start value ending stop := by
  induction phrase with
  | literal constant start => exact .literal constant start
  | name name start => exact .name name start
  | call name _ args => exact .call name args
  | group _ inside => exact .group inside
  | array _ items => exact .array items
  | map _ entries => exact .map entries
  | entry named _ value => exact .entry named value
  | one _ only => exact .one only.item_gives
  | more _ _ before last => exact .more_items before last.item_gives
  | empty item bracket start => exact .empty item bracket start
  | filled bracket items ih => exact .filled bracket items.starts ih
  | operand _ alone => exact .operand alone
  | property name _ receiver => exact .property name receiver
  | method name _ _ receiver args => exact .method name receiver args
  | keyed _ _ receiver key => exact .keyed receiver key
  | apply _ value _ target args => exact .apply target value args
  | noArgument start => exact .noArgument start
  | argument _ member before last => exact .argument before last (member.ending_ne_pipe rfl)
  | unpiped _ alone => exact .unpiped alone
  | pipe name _ _ input args => exact .pipe name input args
  | unsigned pipeline alone => exact .unsigned pipeline.starts alone
  | signed spelled _ signee => exact .signed spelled signee
  | single level _ alone => exact .single level alone
  | binary among spelled _ _ left right => exact .binary among spelled left right
  | plain _ alone => exact .plain alone
  | choice _ _ admitted _ condition yes no => exact .choice condition yes admitted no

end ChangeWatch.Grammar
