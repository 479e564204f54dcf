import ChangeWatch.Expr.Parser

/-!
The grammar of expressions, as it is written down: which lists of tokens are phrases of which kind, and
what they mean. Phrases are built from tokens alone, without any order in which they are read. Pipes take
their slots from left to right, each one behind its arguments, so a phrase leads from one slot to another.
-/
namespace ChangeWatch.Grammar

/-- The levels of binary operators, the loosest first. -/
inductive Level where
  | disjunction | conjunction | equality | relational | additive | multiplicative
deriving DecidableEq

def Level.operators : Level → List BinaryOp
  | disjunction => [.or]
  | conjunction => [.and]
  | equality => [.equal, .notEqual, .strictEqual, .strictNotEqual]
  | relational => [.less, .greater, .lessEqual, .greaterEqual]
  | additive => [.add, .sub]
  | multiplicative => [.mul, .div, .rem]

/-- Pairs of brackets. -/
inductive Bracket where
  | round | square | curly
deriving DecidableEq

namespace Bracket

def left : Bracket → Symbol
  | round => .leftParen
  | square => .leftBracket
  | curly => .leftBrace

def right : Bracket → Symbol
  | round => .rightParen
  | square => .rightBracket
  | curly => .rightBrace

end Bracket

/-- What stands between commas. -/
inductive Item : Type → Type 1 where
  | expression : Item Expr
  | entry : Item (String × Expr)

/-- The kinds of phrases, each with the type of what its phrases mean. -/
inductive Category : Type → Type 1 where
  | conditional : Category Expr
  | binary (level : Level) : Category Expr
  | unary : Category Expr
  | pipeline : Category Expr
  | member : Category Expr
  | primary : Category Expr
  /-- The arguments of a pipe, with a colon in front of each. -/
  | arguments : Category (List Expr)
  | entry : Category (String × Expr)
  /-- One item or more, with commas between them. -/
  | items (item : Item α) : Category (List α)
  /-- Any number of items, with the closing bracket behind them. -/
  | enclosed (item : Item α) (bracket : Bracket) : Category (List α)

/-- The operands of a level are the phrases of the next one. -/
def Level.operand : Level → Category Expr
  | disjunction => .binary .conjunction
  | conjunction => .binary .equality
  | equality => .binary .relational
  | relational => .binary .additive
  | additive => .binary .multiplicative
  | multiplicative => .unary

def Item.category : Item α → Category α
  | expression => .conditional
  | entry => .entry

/-- How a phrase ends: in a name, which an opening parenthesis behind it turns into a call; in a pipe,
which a colon behind it gives another argument; or in something that neither of them changes. -/
inductive Ending where
  | name | pipe | closed
deriving DecidableEq

end Grammar

namespace Token

/-- The constant that a token stands for. -/
def literal? : Token → Option Value
  | keyword .true => some (.bool true)
  | keyword .false => some (.bool false)
  | keyword .null | keyword .undefined => some .null
  | int n => some (.int n)
  | float x => some (.float x)
  | str s => some (.str s)
  | ident _ | symbol _ => none

/-- The tokens that an operand starts with. -/
def IsOperand : Token → Prop
  | symbol sign => sign = .leftParen ∨ sign = .leftBracket ∨ sign = .leftBrace
  | _ => True

def IsSign (token : Token) : Prop := ∃ sign, token = symbol sign ∧ Grammar.signOf sign ≠ none

/-- The key of a map entry that a token stands for. -/
def key? : Token → Option String
  | ident name => some name
  | str s => some s
  | _ => none

end Token

namespace Grammar

open Token (symbol ident)

/-- `Phrase Middle category tokens start meaning ending stop`: the tokens are a phrase of a category,
whose pipes have the slots from `start` up to `stop`. The branch between the question mark and the colon
of a conditional has an ending as `Middle` admits. -/
inductive Phrase (Middle : Ending → Prop) :
    {α : Type} → Category α → List Token → Nat → α → Ending → Nat → Prop where
  | literal {token : Token} {value : Value} (constant : token.literal? = some value) (start : Nat) :
    Phrase Middle .primary [token] start (.literal value) .closed start
  | name (name : String) (start : Nat) :
    Phrase Middle .primary [ident name] start (.name name) .name start
  | call (name : String) (args : Phrase Middle (.enclosed .expression .round) tokens start es ending stop) :
    Phrase Middle .primary (ident name :: symbol .leftParen :: tokens) start
      (.method .implicit name es) .closed stop
  | group (former : Phrase Middle .conditional tokens start e ending stop) :
    Phrase Middle .primary (symbol .leftParen :: tokens ++ [symbol .rightParen]) start e .closed stop
  | array (items : Phrase Middle (.enclosed .expression .square) tokens start es ending stop) :
    Phrase Middle .primary (symbol .leftBracket :: tokens) start (.array es) .closed stop
  | map (entries : Phrase Middle (.enclosed .entry .curly) tokens start pairs ending stop) :
    Phrase Middle .primary (symbol .leftBrace :: tokens) start (.map pairs) .closed stop
  | entry {token : Token} {key : String} (named : token.key? = some key)
      (value : Phrase Middle .conditional tokens start e ending stop) :
    Phrase Middle .entry (token :: symbol .colon :: tokens) start (key, e) ending stop
  | one {item : Item α} (only : Phrase Middle item.category tokens start value ending stop) :
    Phrase Middle (.items item) tokens start [value] ending stop
  | more {item : Item α} {values : List α}
      (before : Phrase Middle (.items item) tokens start values former middle)
      (last : Phrase Middle item.category others middle value ending stop) :
    Phrase Middle (.items item) (tokens ++ symbol .comma :: others) start (values ++ [value]) ending stop
  | empty (item : Item α) (bracket : Bracket) (start : Nat) :
    Phrase Middle (.enclosed item bracket) [symbol bracket.right] start [] .closed start
  | filled {item : Item α} {values : List α} (bracket : Bracket)
      (items : Phrase Middle (.items item) tokens start values ending stop) :
    Phrase Middle (.enclosed item bracket) (tokens ++ [symbol bracket.right]) start values .closed stop
  | operand (alone : Phrase Middle .primary tokens start e ending stop) :
    Phrase Middle .member tokens start e ending stop
  | property (name : String) (receiver : Phrase Middle .member tokens start e ending stop) :
    Phrase Middle .member (tokens ++ [symbol .dot, ident name]) start (.property e name) .name stop
  | method (name : String) (receiver : Phrase Middle .member tokens start e former middle)
      (args : Phrase Middle (.enclosed .expression .round) others middle es ending stop) :
    Phrase Middle .member (tokens ++ symbol .dot :: ident name :: symbol .leftParen :: others) start
      (.method e name es) .closed stop
  | keyed (receiver : Phrase Middle .member tokens start e former middle)
      (key : Phrase Middle .conditional others middle k ending stop) :
    Phrase Middle .member (tokens ++ symbol .leftBracket :: others ++ [symbol .rightBracket]) start
      (.keyed e k) .closed stop
  | apply (target : Phrase Middle .member tokens start e former middle) (value : former ≠ .name)
      (args : Phrase Middle (.enclosed .expression .round) others middle es ending stop) :
    Phrase Middle .member (tokens ++ symbol .leftParen :: others) start (.apply e es) .closed stop
  | noArgument (start : Nat) : Phrase Middle .arguments [] start [] .closed start
  | argument (before : Phrase Middle .arguments tokens start es former middle)
      (last : Phrase Middle .member others middle e ending stop) :
    Phrase Middle .arguments (tokens ++ symbol .colon :: others) start (es ++ [e]) .closed stop
  | unpiped (alone : Phrase Middle .member tokens start e ending stop) :
    Phrase Middle .pipeline tokens start e ending stop
  | pipe (name : String) (input : Phrase Middle .pipeline tokens start e former middle)
      (args : Phrase Middle .arguments others middle es ending stop) :
    Phrase Middle .pipeline (tokens ++ symbol .bar :: ident name :: others) start
      (.pipe e name es stop) .pipe (stop + 1)
  | unsigned (alone : Phrase Middle .pipeline tokens start e ending stop) :
    Phrase Middle .unary tokens start e ending stop
  | signed {sign : Symbol} {op : UnaryOp} (spelled : sign.spelling = op.symbol)
      (signee : Phrase Middle .unary tokens start e ending stop) :
    Phrase Middle .unary (symbol sign :: tokens) start (.unary op e) ending stop
  | single (level : Level) (alone : Phrase Middle level.operand tokens start e ending stop) :
    Phrase Middle (.binary level) tokens start e ending stop
  | binary {level : Level} {op : BinaryOp} {sign : Symbol} (among : op ∈ level.operators)
      (spelled : sign.spelling = op.symbol)
      (left : Phrase Middle (.binary level) tokens start e former middle)
      (right : Phrase Middle level.operand others middle e' ending stop) :
    Phrase Middle (.binary level) (tokens ++ symbol sign :: others) start (.binary op e e') ending stop
  | plain (alone : Phrase Middle (.binary .disjunction) tokens start e ending stop) :
    Phrase Middle .conditional tokens start e ending stop
  | choice (condition : Phrase Middle (.binary .disjunction) tokens start e first second)
      (yes : Phrase Middle .conditional others second e' former third) (admitted : Middle former)
      (no : Phrase Middle .conditional rest third e'' ending stop) :
    Phrase Middle .conditional
      (tokens ++ symbol .question :: others ++ symbol .colon :: rest) start
      (.conditional e e' e'') ending stop

/-- A whole expression. -/
def Sentence (Middle : Ending → Prop) (tokens : List Token) (start : Nat) (e : Expr) (stop : Nat) :
    Prop :=
  ∃ ending, Phrase Middle .conditional tokens start e ending stop

/-- The symbol that goes on with an ending. -/
def Ending.takes : Ending → Symbol → Bool
  | name, .leftParen => true
  | pipe, .colon => true
  | _, _ => false

/-- Tokens that do not go on with an ending. -/
def Ending.Stops (ending : Ending) (tokens : List Token) : Prop :=
  ∀ sign, tokens.head? = some (.symbol sign) → ending.takes sign = false

theorem Ending.closed_stops (tokens : List Token) : closed.Stops tokens :=
  fun sign _ => by cases sign <;> rfl

theorem Ending.name_stops {tokens : List Token}
    (other : tokens.head? ≠ some (.symbol .leftParen)) : name.Stops tokens := by
  intro sign first
  cases sign <;> first | rfl | exact absurd first other

theorem Ending.pipe_stops {tokens : List Token} (other : tokens.head? ≠ some (.symbol .colon)) :
    pipe.Stops tokens := by
  intro sign first
  cases sign <;> first | rfl | exact absurd first other

/-- The signs that the parsers know are those of the grammar. -/
theorem signOf_iff {sign : Symbol} {op : UnaryOp} :
    signOf sign = some op ↔ sign.spelling = op.symbol := by
  constructor
  · intro known
    cases sign <;> cases known <;> rfl
  · intro spelled
    cases op <;> cases sign <;> first | rfl | exact absurd spelled (by decide)

/-- The operator that a symbol stands for at a level. -/
def Level.operatorOf : Level → Symbol → Option BinaryOp
  | disjunction => disjunctionOf
  | conjunction => conjunctionOf
  | equality => equalityOf
  | relational => relationalOf
  | additive => additiveOf
  | multiplicative => multiplicativeOf

/-- The operators that the parsers know are those of the grammar. -/
theorem Level.operatorOf_iff {level : Level} {sign : Symbol} {op : BinaryOp} :
    level.operatorOf sign = some op ↔ op ∈ level.operators ∧ sign.spelling = op.symbol := by
  constructor
  · intro known
    cases level <;> cases sign <;> cases known <;> exact ⟨by decide, rfl⟩
  · rintro ⟨among, spelled⟩
    cases level <;> cases op <;> first
      | exact absurd among (by decide)
      | cases sign <;> first | rfl | exact absurd spelled (by decide)

/-- The first token is of some kind. -/
def Opens (kind : Token → Prop) (tokens : List Token) : Prop :=
  ∃ token rest, tokens = token :: rest ∧ kind token

theorem Opens.append {kind : Token → Prop} {tokens : List Token} (opens : Opens kind tokens)
    (others : List Token) : Opens kind (tokens ++ others) := by
  obtain ⟨token, rest, rfl, first⟩ := opens
  exact ⟨token, rest ++ others, rfl, first⟩

theorem Opens.mono {kind other : Token → Prop} {tokens : List Token} (opens : Opens kind tokens)
    (implied : ∀ token, kind token → other token) : Opens other tokens := by
  obtain ⟨token, rest, same, first⟩ := opens
  exact ⟨token, rest, same, implied token first⟩

theorem right_not_first (bracket : Bracket) :
    ¬ ((symbol bracket.right).IsOperand ∨ (symbol bracket.right).IsSign) := by
  rintro (operand | ⟨sign, same, known⟩)
  · cases bracket <;> simp [Token.IsOperand, Bracket.right] at operand
  · cases same
    cases bracket <;> exact known rfl

/-- What the phrases of a category start with. -/
def Category.Starts : Category α → List Token → Prop
  | .primary | .member | .pipeline => Opens Token.IsOperand
  | .arguments | .enclosed _ _ => fun _ => True
  | _ => Opens fun token => token.IsOperand ∨ token.IsSign

/-- The categories whose phrases contain pipes only in brackets. -/
def Category.isTight : Category α → Bool
  | .primary | .member => true
  | _ => false

namespace Phrase

variable {Middle : Ending → Prop} {category : Category α} {tokens : List Token} {start stop : Nat}
  {value : α} {ending : Ending}

theorem starts (phrase : Phrase Middle category tokens start value ending stop) :
    category.Starts tokens := by
  induction phrase with
  | @literal token _ constant =>
    refine ⟨token, [], rfl, ?_⟩
    cases token <;> trivial
  | name name | call name => exact ⟨ident name, _, rfl, trivial⟩
  | group | array | map => exact ⟨_, _, rfl, by simp [Token.IsOperand]⟩
  | @entry _ _ _ _ _ token key named =>
    refine ⟨token, _, rfl, .inl ?_⟩
    cases token <;> trivial
  | @one _ _ _ _ _ _ item _ ih => cases item <;> exact ih
  | more _ _ ih | property _ _ ih | method _ _ _ ih | apply _ _ _ ih | pipe _ _ _ ih
    | binary _ _ _ _ ih => exact ih.append _
  | empty | filled | noArgument | argument => trivial
  | operand _ ih | unpiped _ ih | plain _ ih => exact ih
  | unsigned _ ih => exact ih.mono fun _ => .inl
  | @signed _ _ _ _ _ sign op spelled =>
    exact ⟨symbol sign, _, rfl, .inr ⟨sign, rfl, by rw [signOf_iff.mpr spelled]; nofun⟩⟩
  | single level _ ih => cases level <;> exact ih
  | keyed _ _ ih | choice _ _ _ _ ih => exact (ih.append _).append _

/-!
Tighter phrases are looser ones.
-/

variable {e : Expr}

theorem level_operand (unary : Phrase Middle .unary tokens start e ending stop) (level : Level) :
    Phrase Middle level.operand tokens start e ending stop := by
  have multiplicative := Phrase.single .multiplicative unary
  have additive := Phrase.single .additive multiplicative
  have relational := Phrase.single .relational additive
  have equality := Phrase.single .equality relational
  have conjunction := Phrase.single .conjunction equality
  cases level <;> assumption

theorem level (unary : Phrase Middle .unary tokens start e ending stop) (level : Level) :
    Phrase Middle (.binary level) tokens start e ending stop :=
  .single level (unary.level_operand level)

theorem expression {level : Level} (phrase : Phrase Middle (.binary level) tokens start e ending stop) :
    Phrase Middle .conditional tokens start e ending stop := by
  refine .plain ?_
  have conjunction (phrase : Phrase Middle (.binary .conjunction) tokens start e ending stop) :=
    Phrase.single .disjunction phrase
  have equality (phrase : Phrase Middle (.binary .equality) tokens start e ending stop) :=
    conjunction (.single .conjunction phrase)
  have relational (phrase : Phrase Middle (.binary .relational) tokens start e ending stop) :=
    equality (.single .equality phrase)
  have additive (phrase : Phrase Middle (.binary .additive) tokens start e ending stop) :=
    relational (.single .relational phrase)
  cases level with
  | disjunction => exact phrase
  | conjunction => exact conjunction phrase
  | equality => exact equality phrase
  | relational => exact relational phrase
  | additive => exact additive phrase
  | multiplicative => exact additive (.single .additive phrase)

theorem unary (member : Phrase Middle .member tokens start e ending stop) :
    Phrase Middle .unary tokens start e ending stop :=
  .unsigned (.unpiped member)

theorem nested (member : Phrase Middle .member tokens start e ending stop) :
    Phrase Middle .conditional tokens start e ending stop :=
  (member.unary.level .disjunction).expression

/-- A phrase ends in a pipe only where pipes are admitted. -/
theorem ending_ne_pipe (phrase : Phrase Middle category tokens start value ending stop)
    (tight : category.isTight = true) : ending ≠ .pipe := by
  induction phrase with
  | literal | name | call | group | array | map | property | method | keyed | apply => nofun
  | operand _ ih => exact ih rfl
  | _ => cases tight

end Phrase

end ChangeWatch.Grammar
