import ChangeWatch.Proofs.Grammar.Sentences
import ChangeWatch.Proofs.Unparsing.Vocabularies

/-!
Texts that are cut into phrases. Each kind of expression is written as tokens that are a phrase with that
expression as its meaning, whatever phrases it is made of, and its text is cut into these tokens wherever the
texts of its leaves are.
-/
namespace ChangeWatch

open Grammar (Category Ending Item Phrase)
open Lexer (Cuts Stops)
open Token (symbol ident)

/-- A meaning whose text a parenthesis behind it would turn into a call. -/
def Grammar.Category.Named : Category α → α → Prop
  | .primary, e | .member, e => e.isProperty = true
  | _, _ => True

theorem Grammar.Phrase.named {category : Category α} {value : α} {Middle : Ending → Prop}
    (phrase : Phrase Middle category tokens start value .name stop) : category.Named value := by
  generalize same : Ending.name = ending at phrase
  induction phrase with
  | name | property => rfl
  | operand _ ih => exact ih same
  | literal | call | group | array | map | method | keyed | apply => cases same
  | _ => trivial

/-- A text that is cut into a phrase with a meaning. -/
def Written (cut : Lexer.Cutter) (category : Category α) (text : String) (start : Nat) (value : α)
    (stop : Nat) : Prop :=
  ∃ tokens ending, Phrase (· ≠ .pipe) category tokens start value ending stop ∧
    ∀ rest, Stops rest → Cuts cut (text.toList ++ rest) tokens rest

theorem IsIdentifier.word_eq {name : String} (identifier : IsIdentifier name) :
    Lexer.word name = ident name := by
  obtain ⟨-, plain⟩ := identifier
  have := plain .true
  have := plain .false
  have := plain .null
  have := plain .undefined
  simp only [Keyword.spelling] at *
  simp [Lexer.word, *]

theorem IsIdentifier.legible {name : String} (identifier : IsIdentifier name) :
    Lexer.LegibleName Lexer.cut name where
  shape := identifier.1
  legible := identifier.word_eq ▸ Lexer.legible_word identifier.1

variable {cut : Lexer.Cutter}

section Cutting

variable [cut.KeepsSymbols]

section Symbols

/-!
How the symbols of canonical texts are cut.
-/

variable (rest : List Char)

theorem cuts_left (bracket : Grammar.Bracket) :
    Cuts cut (bracket.left.spelling.toList ++ rest) [symbol bracket.left] rest := by
  cases bracket <;> exact .sign rfl rfl

theorem stops_left (bracket : Grammar.Bracket) : Stops (bracket.left.spelling.toList ++ rest) := by
  cases bracket <;> exact .cons (by decide) (by decide)

theorem cuts_right (bracket : Grammar.Bracket) :
    Cuts cut (bracket.right.spelling.toList ++ rest) [symbol bracket.right] rest := by
  cases bracket <;> exact .sign rfl rfl

theorem stops_right (bracket : Grammar.Bracket) : Stops (bracket.right.spelling.toList ++ rest) := by
  cases bracket <;> exact .cons (by decide) (by decide)

theorem cuts_comma : Cuts cut (", ".toList ++ rest) [symbol .comma] rest :=
  Cuts.append (.sign rfl rfl) (.blank rfl (.done rest))

theorem cuts_colon : Cuts cut (':' :: rest) [symbol .colon] rest := .sign rfl rfl

end Symbols

/-- A sign, where no equals sign follows it. -/
theorem cuts_sign (op : UnaryOp) : ∃ sign : Symbol, sign.spelling = op.symbol ∧
    ∀ rest : List Char, rest.head? ≠ some '=' →
      Cuts cut (op.symbol.toList ++ rest) [symbol sign] rest := by
  cases op with
  | negate => exact ⟨.minus, rfl, fun _ _ => .sign rfl rfl⟩
  | plus => exact ⟨.plus, rfl, fun _ _ => .sign rfl rfl⟩
  | not =>
    refine ⟨.bang, rfl, fun rest other => .sign rfl ?_⟩
    show Lexer.cut '!' rest = .token (symbol .bang) ['!'] rest
    cases rest with
    | nil => rfl
    | cons c rest =>
      have different : c ≠ '=' := fun same => other (congrArg some same)
      show Lexer.symbol '!' (c :: rest) = _
      simp [Lexer.symbol, different]

/-- An operator with a blank behind it. -/
theorem cuts_operator (op : BinaryOp) : ∃ (level : Grammar.Level) (sign : Symbol),
    op ∈ level.operators ∧ sign.spelling = op.symbol ∧
      ∀ rest, Cuts cut (op.symbol.toList ++ ' ' :: rest) [symbol sign] (' ' :: rest) := by
  cases op with
  | add => exact ⟨.additive, .plus, by decide, rfl, fun _ => .sign rfl rfl⟩
  | sub => exact ⟨.additive, .minus, by decide, rfl, fun _ => .sign rfl rfl⟩
  | mul => exact ⟨.multiplicative, .star, by decide, rfl, fun _ => .sign rfl rfl⟩
  | div => exact ⟨.multiplicative, .slash, by decide, rfl, fun _ => .sign rfl rfl⟩
  | rem => exact ⟨.multiplicative, .percent, by decide, rfl, fun _ => .sign rfl rfl⟩
  | less => exact ⟨.relational, .less, by decide, rfl, fun _ => .sign rfl rfl⟩
  | greater => exact ⟨.relational, .greater, by decide, rfl, fun _ => .sign rfl rfl⟩
  | lessEqual => exact ⟨.relational, .lessEqual, by decide, rfl, fun _ => .pair rfl rfl⟩
  | greaterEqual => exact ⟨.relational, .greaterEqual, by decide, rfl, fun _ => .pair rfl rfl⟩
  | equal => exact ⟨.equality, .equal, by decide, rfl, fun _ => .pair rfl rfl⟩
  | notEqual => exact ⟨.equality, .notEqual, by decide, rfl, fun _ => .pair rfl rfl⟩
  | strictEqual =>
    exact ⟨.equality, .strictEqual, by decide, rfl, fun _ => .triple rfl rfl⟩
  | strictNotEqual =>
    exact ⟨.equality, .strictNotEqual, by decide, rfl, fun _ => .triple rfl rfl⟩
  | and => exact ⟨.conjunction, .and, by decide, rfl, fun _ => .pair rfl rfl⟩
  | or => exact ⟨.disjunction, .or, by decide, rfl, fun _ => .pair rfl rfl⟩

namespace Written

variable {text other inside : String} {start middle stop : Nat} {e e' e'' k : Expr} {es : List Expr}

omit [cut.KeepsSymbols] in
theorem literal {text : String} {token : Token} {value : Value} (known : token.literal? = some value)
    (legible : Lexer.Legible cut text token) (start : Nat) :
    Written cut .member text start (.literal value) start :=
  ⟨[token], .closed, .operand (.literal known start), fun rest stops => (legible rest stops).cuts⟩

omit [cut.KeepsSymbols] in
theorem name {name : String} (identifier : Lexer.LegibleName cut name) (start : Nat) :
    Written cut .member name start (.name name) start :=
  ⟨[ident name], .name, .operand (.name name start), fun _ => identifier.cuts⟩

/-- A member behind a point. -/
theorem point {name : String} (identifier : Lexer.LegibleName cut name)
    (cuts : ∀ rest, Stops rest → Cuts cut (text.toList ++ rest) tokens rest) {rest : List Char}
    (stops : Stops rest) :
    Cuts cut ((text ++ "." ++ name).toList ++ rest) (tokens ++ [symbol .dot, ident name]) rest := by
  obtain ⟨c, letters, spelled, starts⟩ := identifier.starts
  have digit : c.isDigit = false := by
    rw [← Bool.not_eq_true]
    intro digit
    rw [Lexer.not_start_of_digit digit] at starts
    cases starts
  have pointed : Stops ('.' :: (name.toList ++ rest)) := by
    rintro _ _ ⟨⟩
    refine ⟨by decide, fun _ d behind same => ?_⟩
    rw [spelled] at same
    cases same
    exact digit
  have dot : Cuts cut ('.' :: (name.toList ++ rest)) [symbol .dot] (name.toList ++ rest) := by
    refine .sign (by decide) ?_
    rw [Lexer.cut, if_neg (by decide), if_neg (by decide), if_neg (by decide), pointed.fraction?]
    rfl
  have found := (cuts _ pointed).append (dot.append (identifier.cuts stops))
  simpa using found

theorem property {name : String} (receiver : Written cut .member text start e stop)
    (identifier : Lexer.LegibleName cut name) :
    Written cut .member (text ++ "." ++ name) start (.property e name) stop := by
  obtain ⟨tokens, ending, phrase, cuts⟩ := receiver
  exact ⟨_, _, phrase.property name, fun rest => point identifier cuts⟩

theorem call {name : String} (identifier : Lexer.LegibleName cut name)
    (args : Written cut (.enclosed .expression .round) (inside ++ ")") start es stop) :
    Written cut .member (name ++ "(" ++ inside ++ ")") start (.method .implicit name es) stop := by
  obtain ⟨tokens, ending, phrase, cuts⟩ := args
  refine ⟨_, _, .operand (phrase.call name), fun rest stops => ?_⟩
  have opened : Cuts cut ('(' :: ((inside ++ ")").toList ++ rest)) (symbol .leftParen :: tokens) rest :=
    (cuts_left _ .round).append (cuts rest stops)
  have opens : Stops ('(' :: ((inside ++ ")").toList ++ rest)) := stops_left _ .round
  have found := (identifier.cuts opens).append opened
  simpa using found

theorem method {name : String} (receiver : Written cut .member text start e middle)
    (identifier : Lexer.LegibleName cut name)
    (args : Written cut (.enclosed .expression .round) (inside ++ ")") middle es stop) :
    Written cut .member (text ++ "." ++ name ++ "(" ++ inside ++ ")") start (.method e name es) stop := by
  obtain ⟨tokens, ending, phrase, cuts⟩ := receiver
  obtain ⟨others, ending', phrase', cuts'⟩ := args
  refine ⟨_, _, phrase.method name phrase', fun rest stops => ?_⟩
  have opened : Cuts cut ('(' :: ((inside ++ ")").toList ++ rest)) (symbol .leftParen :: others) rest :=
    (cuts_left _ .round).append (cuts' rest stops)
  have opens : Stops ('(' :: ((inside ++ ")").toList ++ rest)) := stops_left _ .round
  have found := (point identifier cuts opens).append opened
  simpa using found

theorem keyed (receiver : Written cut .member text start e middle)
    (key : Written cut .member inside middle k stop) :
    Written cut .member (text ++ "[" ++ inside ++ "]") start (.keyed e k) stop := by
  obtain ⟨tokens, ending, phrase, cuts⟩ := receiver
  obtain ⟨others, ending', phrase', cuts'⟩ := key
  refine ⟨_, _, phrase.keyed phrase'.nested, fun rest _ => ?_⟩
  have closed : Cuts cut (inside.toList ++ ']' :: rest) (others ++ [symbol .rightBracket]) rest :=
    (cuts' _ (stops_right rest .square)).append (cuts_right rest .square)
  have opened : Cuts cut ('[' :: (inside.toList ++ ']' :: rest))
      (symbol .leftBracket :: (others ++ [symbol .rightBracket])) rest :=
    (cuts_left _ .square).append closed
  have opens : Stops ('[' :: (inside.toList ++ ']' :: rest)) := stops_left _ .square
  have found := (cuts _ opens).append opened
  simpa using found

theorem apply (target : Written cut .member text start e middle) (value : e.isProperty = false)
    (args : Written cut (.enclosed .expression .round) (inside ++ ")") middle es stop) :
    Written cut .member (text ++ "(" ++ inside ++ ")") start (.apply e es) stop := by
  obtain ⟨tokens, ending, phrase, cuts⟩ := target
  obtain ⟨others, ending', phrase', cuts'⟩ := args
  have called : ending ≠ .name := by
    rintro rfl
    have named : e.isProperty = true := phrase.named
    rw [value] at named
    cases named
  refine ⟨_, _, phrase.apply called phrase', fun rest stops => ?_⟩
  have opened : Cuts cut ('(' :: ((inside ++ ")").toList ++ rest)) (symbol .leftParen :: others) rest :=
    (cuts_left _ .round).append (cuts' rest stops)
  have opens : Stops ('(' :: ((inside ++ ")").toList ++ rest)) := stops_left _ .round
  have found := (cuts _ opens).append opened
  simpa using found

/-- A phrase in parentheses. -/
theorem group (inner : Written cut .conditional inside start e stop) :
    Written cut .member ("(" ++ inside ++ ")") start e stop := by
  obtain ⟨tokens, ending, phrase, cuts⟩ := inner
  refine ⟨_, _, .operand phrase.group, fun rest _ => ?_⟩
  have closed : Cuts cut (inside.toList ++ ')' :: rest) (tokens ++ [symbol .rightParen]) rest :=
    (cuts _ (stops_right rest .round)).append (cuts_right rest .round)
  have found : Cuts cut ('(' :: (inside.toList ++ ')' :: rest))
      (symbol .leftParen :: (tokens ++ [symbol .rightParen])) rest :=
    (cuts_left _ .round).append closed
  simpa using found

/-- The text of an operand starts with some letter, and not with an equals sign. -/
theorem head (written : Written cut .member text start e stop) :
    ∃ c letters, text.toList = c :: letters ∧ c ≠ '=' := by
  obtain ⟨tokens, ending, phrase, cuts⟩ := written
  obtain ⟨token, others, rfl, operand⟩ := phrase.starts
  have found := cuts [] .nil
  rw [List.append_nil] at found
  generalize text.toList = letters at found
  cases found with
  | @blank s _ _ c blank =>
    refine ⟨c, s, rfl, ?_⟩
    rintro rfl
    cases blank
  | @token s _ _ _ _ c _ _ first =>
    refine ⟨c, s, rfl, ?_⟩
    rintro rfl
    have first : Lexer.symbol '=' s = _ := (Lexer.Cutter.KeepsSymbols.equals s).symm.trans first
    unfold Lexer.symbol at first
    split at first <;> cases first <;> first
      | exact absurd ‹ '=' = _› (by decide)
      | simp [Token.IsOperand] at operand

theorem unary (op : UnaryOp) (operand : Written cut .member text start e stop) :
    Written cut .conditional (op.symbol ++ text) start (.unary op e) stop := by
  obtain ⟨c, letters, spelled, other⟩ := operand.head
  obtain ⟨tokens, ending, phrase, cuts⟩ := operand
  obtain ⟨sign, spelling, signs⟩ := @cuts_sign cut _ op
  refine ⟨_, _, ((phrase.unary.signed spelling).level .disjunction).expression, fun rest stops => ?_⟩
  have apart : (text.toList ++ rest).head? ≠ some '=' := by
    rw [spelled]
    exact fun same => other (Option.some.inj same)
  have found := (signs _ apart).append (cuts rest stops)
  simpa using found

theorem binary (op : BinaryOp) (left : Written cut .member text start e middle)
    (right : Written cut .member other middle e' stop) :
    Written cut .conditional (text ++ " " ++ op.symbol ++ " " ++ other) start (.binary op e e') stop := by
  obtain ⟨tokens, ending, phrase, cuts⟩ := left
  obtain ⟨others, ending', phrase', cuts'⟩ := right
  obtain ⟨level, sign, among, spelled, operators⟩ := @cuts_operator cut _ op
  have joined := Phrase.binary among spelled (phrase.unary.level level) (phrase'.unary.level_operand level)
  refine ⟨_, _, joined.expression, fun rest stops => ?_⟩
  have behind : Cuts cut (' ' :: (other.toList ++ rest)) others rest := .blank rfl (cuts' rest stops)
  have blank : Stops (' ' :: (op.symbol.toList ++ ' ' :: (other.toList ++ rest))) :=
    .cons (by decide) (by decide)
  have found := (cuts _ blank).append (.blank rfl ((operators _).append behind))
  simpa using found

theorem conditional (condition : Written cut .member text start e middle)
    (yes : Written cut .member other middle e' last) (no : Written cut .member inside last e'' stop) :
    Written cut .conditional (text ++ " ? " ++ other ++ " : " ++ inside) start (.conditional e e' e'')
      stop := by
  obtain ⟨tokens, ending, phrase, cuts⟩ := condition
  obtain ⟨others, ending', phrase', cuts'⟩ := yes
  obtain ⟨more, ending'', phrase'', cuts''⟩ := no
  have joined := (phrase.unary.level .disjunction).choice phrase'.nested (phrase'.ending_ne_pipe rfl)
    phrase''.nested
  refine ⟨_, _, joined, fun rest stops => ?_⟩
  have colon : Cuts cut (' ' :: ':' :: ' ' :: (inside.toList ++ rest)) (symbol .colon :: more) rest :=
    .blank rfl ((Cuts.sign rfl rfl).append (.blank rfl (cuts'' rest stops)))
  have closed := (cuts' _ (.cons (by decide) (by decide))).append colon
  have question : Cuts cut
      (' ' :: '?' :: ' ' :: (other.toList ++ ' ' :: ':' :: ' ' :: (inside.toList ++ rest)))
      (symbol .question :: (others ++ symbol .colon :: more)) rest :=
    .blank rfl ((Cuts.sign rfl rfl).append (.blank rfl closed))
  have found := (cuts _ (.cons (by decide) (by decide))).append question
  simpa using found

theorem array (items : Written cut (.enclosed .expression .square) (inside ++ "]") start es stop) :
    Written cut .member ("[" ++ inside ++ "]") start (.array es) stop := by
  obtain ⟨tokens, ending, phrase, cuts⟩ := items
  refine ⟨_, _, .operand phrase.array, fun rest stops => ?_⟩
  have found : Cuts cut ('[' :: ((inside ++ "]").toList ++ rest)) (symbol .leftBracket :: tokens) rest :=
    (cuts_left _ .square).append (cuts rest stops)
  simpa using found

theorem map {pairs : List (String × Expr)}
    (entries : Written cut (.enclosed .entry .curly) (inside ++ "\x7d") start pairs stop) :
    Written cut .member ("\x7b" ++ inside ++ "\x7d") start (.map pairs) stop := by
  obtain ⟨tokens, ending, phrase, cuts⟩ := entries
  refine ⟨_, _, .operand phrase.map, fun rest stops => ?_⟩
  have found : Cuts cut ('\x7b' :: ((inside ++ "\x7d").toList ++ rest)) (symbol .leftBrace :: tokens) rest :=
    (cuts_left _ .curly).append (cuts rest stops)
  simpa using found

theorem entry {key : String} {token : Token} {name : String} (named : token.key? = some key)
    (legible : Lexer.Legible cut name token) (value : Written cut .member text start e stop) :
    Written cut .entry (name ++ ": " ++ text) start (key, e) stop := by
  obtain ⟨tokens, ending, phrase, cuts⟩ := value
  refine ⟨_, _, phrase.nested.entry named, fun rest stops => ?_⟩
  have behind : Cuts cut (':' :: ' ' :: (text.toList ++ rest)) (symbol .colon :: tokens) rest :=
    (Cuts.sign rfl rfl).append (.blank rfl (cuts rest stops))
  have found := (legible _ (.cons (by decide) (by decide))).cuts.append behind
  simpa using found

/-- Another item behind a comma. -/
theorem more {item : Grammar.Item α} {values : List α} {value : α}
    (before : Written cut (.items item) text start values middle)
    (last : Written cut item.category other middle value stop) :
    Written cut (.items item) (text ++ ", " ++ other) start (values ++ [value]) stop := by
  obtain ⟨tokens, ending, phrase, cuts⟩ := before
  obtain ⟨others, ending', phrase', cuts'⟩ := last
  refine ⟨_, _, phrase.more phrase', fun rest stops => ?_⟩
  have comma : Stops (", ".toList ++ (other.toList ++ rest)) := .cons (by decide) (by decide)
  have found := (cuts _ comma).append ((cuts_comma _).append (cuts' rest stops))
  simpa using found

/-- Another argument of a pipe. -/
theorem argument (before : Written cut .arguments text start es middle)
    (last : Written cut .member other middle e stop) :
    Written cut .arguments (text ++ ":" ++ other) start (es ++ [e]) stop := by
  obtain ⟨tokens, ending, phrase, cuts⟩ := before
  obtain ⟨others, ending', phrase', cuts'⟩ := last
  refine ⟨_, _, phrase.argument phrase', fun rest stops => ?_⟩
  have colon : Stops (':' :: (other.toList ++ rest)) := .cons (by decide) (by decide)
  have found := (cuts _ colon).append ((cuts_colon _).append (cuts' rest stops))
  simpa using found

end Written

/-- Phrases that follow each other, each one from the slot on that the former one leads to. -/
inductive Row (cut : Lexer.Cutter) (category : Category α) : List String → Nat → List α → Nat → Prop where
  | nil (start : Nat) : Row cut category [] start [] start
  | cons {text : String} {texts : List String} {start middle stop : Nat} {value : α} {values : List α}
      (first : Written cut category text start value middle)
      (others : Row cut category texts middle values stop) :
      Row cut category (text :: texts) start (value :: values) stop

namespace Row

variable {item : Grammar.Item α} {text : String} {texts : List String} {start middle stop : Nat}
  {former values : List α} {args es : List Expr}

/-- Items with commas between them, behind other items. -/
theorem items_behind (before : Written cut (.items item) text start former middle)
    (row : Row cut item.category texts middle values stop) :
    Written cut (.items item) (", ".intercalate (text :: texts)) start (former ++ values) stop := by
  induction row generalizing text former with
  | nil => simpa using before
  | cons first others ih =>
    rw [List.append_cons]
    exact ih (before.more first)

/-- Items in brackets; the text leaves out the opening one. -/
theorem enclosed (item : Grammar.Item α) (row : Row cut item.category texts start values stop)
    (bracket : Grammar.Bracket) :
    Written cut (.enclosed item bracket) (", ".intercalate texts ++ bracket.right.spelling) start values
      stop := by
  cases row with
  | nil =>
    refine ⟨_, _, .empty item bracket start, fun rest _ => ?_⟩
    simpa using cuts_right rest bracket
  | cons first others =>
    obtain ⟨tokens, ending, phrase, cuts⟩ := first
    obtain ⟨more, ending', phrase', cuts'⟩ := others.items_behind ⟨_, _, .one phrase, cuts⟩
    refine ⟨_, _, .filled bracket phrase', fun rest _ => ?_⟩
    have found := (cuts' _ (stops_right rest bracket)).append (cuts_right rest bracket)
    simpa using found

omit [cut.KeepsSymbols] in
theorem nested (row : Row cut .member texts start es stop) : Row cut .conditional texts start es stop := by
  induction row with
  | nil => exact .nil _
  | cons first _ ih =>
    obtain ⟨tokens, ending, phrase, cuts⟩ := first
    exact .cons ⟨tokens, ending, phrase.nested, cuts⟩ ih

/-- Operands in brackets. -/
theorem operands (row : Row cut .member texts start es stop) (bracket : Grammar.Bracket) :
    Written cut (.enclosed .expression bracket) (", ".intercalate texts ++ bracket.right.spelling) start es
      stop :=
  enclosed .expression row.nested bracket

/-- Arguments of a pipe, behind other arguments. -/
theorem arguments_behind (before : Written cut .arguments text start args middle)
    (row : Row cut .member texts middle es stop) :
    Written cut .arguments (text ++ String.join (texts.map (":" ++ ·))) start (args ++ es) stop := by
  induction row generalizing text args with
  | nil => simpa using before
  | cons first others ih =>
    rw [List.append_cons, List.map_cons, String.join_cons, ← String.append_assoc, ← String.append_assoc]
    exact ih (before.argument first)

theorem arguments (row : Row cut .member texts start es stop) :
    Written cut .arguments (String.join (texts.map (":" ++ ·))) start es stop := by
  have none : Written cut .arguments "" start [] start :=
    ⟨[], _, .noArgument start, fun rest _ => .done rest⟩
  simpa using row.arguments_behind none

end Row

theorem stops_arguments {texts : List String} {rest : List Char} (stops : Stops rest) :
    Stops ((String.join (texts.map (":" ++ ·))).toList ++ rest) := by
  cases texts with
  | nil => simpa using stops
  | cons text texts =>
    have colon (s : List Char) : Stops (':' :: s) := .cons (by decide) (by decide)
    simpa using colon _

theorem Written.pipe {text name : String} {texts : List String} {start middle stop : Nat} {e : Expr}
    {args : List Expr} (input : Written cut .member text start e middle)
    (identifier : Lexer.LegibleName cut name) (row : Row cut .member texts middle args stop) :
    Written cut .conditional (text ++ " | " ++ name ++ String.join (texts.map (":" ++ ·))) start
      (.pipe e name args stop) (stop + 1) := by
  have apart := @stops_arguments texts
  have arguments := row.arguments
  generalize String.join (texts.map (":" ++ ·)) = inside at apart arguments ⊢
  obtain ⟨tokens, ending, phrase, cuts⟩ := input
  obtain ⟨others, ending', phrase', cuts'⟩ := arguments
  have piped := Phrase.pipe name (.unpiped phrase) phrase'
  refine ⟨_, _, ((Phrase.unsigned piped).level .disjunction).expression, fun rest stops => ?_⟩
  have named := (identifier.cuts (apart stops)).append (cuts' rest stops)
  have bar : Cuts cut (' ' :: '|' :: ' ' :: (name.toList ++ (inside.toList ++ rest)))
      (symbol .bar :: ident name :: others) rest :=
    .blank rfl ((Cuts.sign rfl rfl).append (.blank rfl named))
  have found := (cuts _ (.cons (by decide) (by decide))).append bar
  simpa using found

end Cutting

/-- What a way to cut reads back: constants and keys as given ones, names as themselves. -/
def Vocabulary.legible (cut : Lexer.Cutter) (value : Value → Value) (key : String → String) :
    Vocabulary where
  literal v := ∃ token : Token, token.literal? = some (value v) ∧ Lexer.Legible cut v.renderLiteral token
  name := Lexer.LegibleName cut
  key k := ∃ token : Token, token.key? = some (key k) ∧ Lexer.Legible cut (Expr.renderKey k) token
  called target := target.isProperty = false

namespace Expr

variable {value : Value → Value} {key : String → String}

theorem isProperty_mapLeaves (e : Expr) : (e.mapLeaves value key).isProperty = e.isProperty := by
  cases e <;> rfl

mutual
/-- The text of an expression is cut into a phrase, whose meaning is the expression with the leaves that are
read. -/
theorem written_over [cut.KeepsSymbols] : {e : Expr} → e.Over (.legible cut value key) → {start : Nat} →
    InOrder start e.pipeSlots →
    Written cut .member e.render start (e.mapLeaves value key) (start + e.pipeSlots.length)
  | literal _, ⟨_, known, legible⟩, start, _ => .literal known legible start
  | property receiver name, ⟨known, identifier⟩, start, slots => by
    rw [render]
    split
    · rename_i none
      rw [eq_implicit none]
      exact .name identifier start
    · rename_i some
      exact (written_over (known.resolve_left some) slots).property identifier
  | keyed receiver k, ⟨known, known'⟩, start, slots => by
    obtain ⟨first, last⟩ := InOrder.append.mp slots
    rw [render, pipeSlots, List.length_append, ← Nat.add_assoc]
    exact (written_over known first).keyed (written_over known' last)
  | method receiver name args, ⟨known, identifier, known'⟩, start, slots => by
    rw [render]
    split
    · rename_i none
      rw [eq_implicit none] at slots ⊢
      exact .call identifier ((written_over_all known' slots).operands .round)
    · rename_i some
      obtain ⟨first, last⟩ := InOrder.append.mp slots
      rw [pipeSlots, List.length_append, ← Nat.add_assoc]
      exact (written_over (known.resolve_left some) first).method identifier
        ((written_over_all known' last).operands .round)
  | apply target args, ⟨known, called, known'⟩, start, slots => by
    obtain ⟨first, last⟩ := InOrder.append.mp slots
    rw [render, pipeSlots, List.length_append, ← Nat.add_assoc]
    exact (written_over known first).apply ((isProperty_mapLeaves target).trans called)
      ((written_over_all known' last).operands .round)
  | unary op operand, known, start, slots => by
    rw [render, @String.append_assoc "(" op.symbol]
    exact ((written_over (e := operand) known slots).unary op).group
  | binary op left right, ⟨known, known'⟩, start, slots => by
    obtain ⟨first, last⟩ := InOrder.append.mp slots
    rw [render, pipeSlots, List.length_append, ← Nat.add_assoc]
    simpa [String.append_assoc, mapLeaves] using
      ((written_over known first).binary op (written_over known' last)).group
  | conditional condition yes no, ⟨known, known', known''⟩, start, slots => by
    obtain ⟨both, third⟩ := InOrder.append.mp slots
    obtain ⟨first, second⟩ := InOrder.append.mp both
    rw [List.length_append, ← Nat.add_assoc] at third
    rw [render, pipeSlots, List.length_append, List.length_append, ← Nat.add_assoc, ← Nat.add_assoc]
    simpa [String.append_assoc, mapLeaves] using
      ((written_over known first).conditional (written_over known' second)
        (written_over known'' third)).group
  | array items, known, start, slots => by
    exact .array ((written_over_all known slots).operands .square)
  | map entries, known, start, slots => by
    exact .map (Row.enclosed .entry (written_over_entries known slots) .curly)
  | pipe exp name args slot, ⟨known, identifier, known'⟩, start, slots => by
    obtain ⟨both, third⟩ := InOrder.append.mp slots
    obtain ⟨first, second⟩ := InOrder.append.mp both
    obtain rfl := InOrder.single.mp third
    simp only [render, pipeSlots, List.length_append, List.length_singleton, ← Nat.add_assoc]
    simpa [String.append_assoc, mapLeaves] using
      ((written_over known first).pipe identifier (written_over_all known' second)).group

theorem written_over_all [cut.KeepsSymbols] : {es : List Expr} →
    OverAll (.legible cut value key) es → {start : Nat} → InOrder start (pipeSlotsAll es) →
    Row cut .member (renderAll es) start (mapLeavesAll value key es) (start + (pipeSlotsAll es).length)
  | [], _, start, _ => .nil start
  | e :: es, ⟨known, others⟩, start, slots => by
    obtain ⟨first, last⟩ := InOrder.append.mp slots
    rw [pipeSlotsAll, List.length_append, ← Nat.add_assoc]
    exact .cons (written_over known first) (written_over_all others last)

theorem written_over_entries [cut.KeepsSymbols] : {entries : List (String × Expr)} →
    OverEntries (.legible cut value key) entries → {start : Nat} →
    InOrder start (pipeSlotsEntries entries) →
    Row cut .entry (renderEntries entries) start (mapLeavesEntries value key entries)
      (start + (pipeSlotsEntries entries).length)
  | [], _, start, _ => .nil start
  | (_, e) :: entries, ⟨⟨⟨_, named, legible⟩, known⟩, others⟩, start, slots => by
    obtain ⟨first, last⟩ := InOrder.append.mp slots
    rw [pipeSlotsEntries, List.length_append, ← Nat.add_assoc]
    exact .cons ((written_over known first).entry named legible) (written_over_entries others last)
end

end Expr
end ChangeWatch
