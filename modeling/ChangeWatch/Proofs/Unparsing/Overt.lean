import ChangeWatch.Proofs.Unparsing.Letters
import ChangeWatch.Proofs.Unparsing.Written

/-!
Expressions that their canonical text tells apart. The text is made of the letters of the leaves, and these
tell the leaves; where an expression calls no property and has no infinite number, its text can be cut into
a phrase of these letters, and phrases have one meaning.
-/
namespace ChangeWatch

namespace Expr

mutual
/-- An expression that calls no property as a function and has no infinite number among its constants. -/
def Overt : Expr → Prop
  | implicit => True
  | literal value => value.IsFinite
  | property receiver _ => receiver.Overt
  | keyed receiver key => receiver.Overt ∧ key.Overt
  | method receiver _ args => receiver.Overt ∧ OvertAll args
  | apply target args => target.isProperty = false ∧ target.Overt ∧ OvertAll args
  | unary _ operand => operand.Overt
  | binary _ left right => left.Overt ∧ right.Overt
  | conditional condition yes no => condition.Overt ∧ yes.Overt ∧ no.Overt
  | array items => OvertAll items
  | map entries => OvertEntries entries
  | pipe exp _ args _ => exp.Overt ∧ OvertAll args
  | interpolation _ expressions => OvertAll expressions

def OvertAll : List Expr → Prop
  | [] => True
  | e :: es => e.Overt ∧ OvertAll es

def OvertEntries : List (String × Expr) → Prop
  | [] => True
  | (_, e) :: entries => e.Overt ∧ OvertEntries entries
end

end Expr

/-- The leaves of one vocabulary are leaves of another, infinite numbers and called properties apart. -/
structure Vocabulary.Refines (words finer : Vocabulary) : Prop where
  literal : ∀ value : Value, words.literal value → value.IsFinite → finer.literal value
  name : ∀ name, words.name name → finer.name name
  key : ∀ key, words.key key → finer.key key
  called : ∀ target : Expr, target.isProperty = false → finer.called target

namespace Expr

variable {words finer : Vocabulary}

mutual
theorem Over.refine (refines : words.Refines finer) : {e : Expr} → e.Over words → e.Overt → e.Over finer
  | literal value, known, overt => refines.literal value known overt
  | property _ _, ⟨known, named⟩, overt =>
    ⟨known.imp_right fun known => refine refines known overt, refines.name _ named⟩
  | keyed _ _, ⟨known, known'⟩, ⟨overt, overt'⟩ =>
    ⟨refine refines known overt, refine refines known' overt'⟩
  | method _ _ _, ⟨known, named, known'⟩, ⟨overt, overt'⟩ =>
    ⟨known.imp_right fun known => refine refines known overt, refines.name _ named,
      refine_all refines known' overt'⟩
  | apply _ _, ⟨known, _, known'⟩, ⟨value, overt, overt'⟩ =>
    ⟨refine refines known overt, refines.called _ value, refine_all refines known' overt'⟩
  | unary _ operand, known, overt => @refine refines operand known overt
  | binary _ _ _, ⟨known, known'⟩, ⟨overt, overt'⟩ =>
    ⟨refine refines known overt, refine refines known' overt'⟩
  | conditional _ _ _, ⟨known, known', known''⟩, ⟨overt, overt', overt''⟩ =>
    ⟨refine refines known overt, refine refines known' overt', refine refines known'' overt''⟩
  | array items, known, overt => @refine_all refines items known overt
  | map entries, known, overt => @refine_entries refines entries known overt
  | pipe _ _ _ _, ⟨known, named, known'⟩, ⟨overt, overt'⟩ =>
    ⟨refine refines known overt, refines.name _ named, refine_all refines known' overt'⟩

theorem Over.refine_all (refines : words.Refines finer) : {es : List Expr} → OverAll words es →
    OvertAll es → OverAll finer es
  | [], _, _ => trivial
  | _ :: _, ⟨known, others⟩, ⟨overt, overt'⟩ =>
    ⟨refine refines known overt, refine_all refines others overt'⟩

theorem Over.refine_entries (refines : words.Refines finer) : {entries : List (String × Expr)} →
    OverEntries words entries → OvertEntries entries → OverEntries finer entries
  | [], _, _ => trivial
  | _ :: _, ⟨⟨named, known⟩, others⟩, ⟨overt, overt'⟩ =>
    ⟨⟨refines.key _ named, refine refines known overt⟩, refine_entries refines others overt'⟩
end

/-- A constant by its letters. -/
def spell (value : Value) : Value := .str value.renderLiteral

/-- An expression with the letters of its constants and of its keys in their places. -/
def spelled (e : Expr) : Expr := e.mapLeaves spell renderKey

theorem renderKey_injective : Function.Injective renderKey := by
  have apart {name key : String} (shape : isName name = true) (same : name = Text.quote key) : False := by
    unfold isName at shape
    rw [same, Text.toList_quote] at shape
    simp [isNameStart] at shape
  intro key key' same
  unfold renderKey at same
  split at same <;> split at same
  · exact same
  · exact (apart ‹_› same).elim
  · exact (apart ‹_› same.symm).elim
  · exact Text.quote_injective same

/-- A word is taken by its letters as a key, whether it has a meaning or not. -/
theorem legible_key {key : String} (shape : isName key = true) :
    ∃ token : Token, token.key? = some key ∧ Lexer.Legible Lexer.byLetters key token := by
  have legible : Lexer.Legible Lexer.cut key (Lexer.word key) := Lexer.legible_word shape
  have key? : ((Lexer.word key).byLetters key).key? = some key ∧ ∀ text, Lexer.word key ≠ .str text := by
    unfold Lexer.word
    (repeat' split) <;> exact ⟨rfl, fun _ clash => by cases clash⟩
  exact ⟨_, key?.1, legible.byLetters key?.2⟩

/-- Without infinite numbers and called properties, the lexer's leaves are taken by their letters. -/
theorem lexed_refines_legible :
    Vocabulary.lexed.Refines (.legible Lexer.byLetters spell renderKey) where
  literal value lexed finite := ⟨.str value.renderLiteral, rfl, lexed.byLetters finite⟩
  name name identifier := by
    refine ⟨identifier.1, identifier.legible.legible.byLetters ?_⟩
    rintro _ ⟨⟩
  key key _ := by
    show ∃ token : Token, token.key? = some (renderKey key) ∧
      Lexer.Legible Lexer.byLetters (renderKey key) token
    unfold renderKey
    split
    · exact legible_key ‹_›
    · exact ⟨.str (Text.quote key), rfl, Lexer.byLetters_quote key⟩
  called _ value := value

/-- The leaves can be told from their letters. -/
theorem spelled_injective {e e' : Expr} (known : e.Over .lexed) (overt : e.Overt) (known' : e'.Over .lexed)
    (overt' : e'.Overt) (same : e.spelled = e'.spelled) : e = e' := by
  have injective : Set.InjOn spell {value | value.Lexed ∧ value.IsFinite} := by
    rintro value ⟨lexed, finite⟩ other ⟨lexed', finite'⟩ same
    exact lexed.renderLiteral_injective finite lexed' finite' (Value.str.inj same)
  -- Nothing has to be read for this: any map that undoes the letters of leaves undoes them everywhere.
  let read := Function.invFunOn spell {value | value.Lexed ∧ value.IsFinite}
  let readKey := Function.invFun renderKey
  let kept : Vocabulary :=
    { literal := fun value => (read ∘ spell) value = value
      name := fun _ => True
      key := fun key => (readKey ∘ renderKey) key = key
      called := fun _ => True }
  have refines : Vocabulary.lexed.Refines kept :=
    { literal := fun value lexed finite => injective.leftInvOn_invFunOn ⟨lexed, finite⟩
      name := fun _ _ => trivial
      key := fun key _ => Function.leftInverse_invFun renderKey_injective key
      called := fun _ _ => trivial }
  have back {e : Expr} (known : e.Over .lexed) (overt : e.Overt) :
      e.spelled.mapLeaves read readKey = e := by
    rw [spelled, mapLeaves_mapLeaves]
    exact mapLeaves_eq (fun _ same => same) (fun _ same => same) (known.refine refines overt)
  rw [← back known overt, same, back known' overt']

/-- Overt expressions of the lexer's tokens have different texts. -/
theorem render_injective {e e' : Expr} (known : e.Over .lexed) (overt : e.Overt)
    (numbered : InOrder 0 e.pipeSlots) (known' : e'.Over .lexed) (overt' : e'.Overt)
    (numbered' : InOrder 0 e'.pipeSlots) (same : e.render = e'.render) : e = e' := by
  have written {e : Expr} (known : e.Over .lexed) (overt : e.Overt) (numbered : InOrder 0 e.pipeSlots) :
      Written Lexer.byLetters .member e.render 0 e.spelled (0 + e.pipeSlots.length) :=
    written_over (known.refine lexed_refines_legible overt) numbered
  obtain ⟨tokens, ending, phrase, cuts⟩ := written known overt numbered
  obtain ⟨tokens', ending', phrase', cuts'⟩ := written known' overt' numbered'
  have whole := cuts [] .nil
  have whole' := cuts' [] .nil
  rw [same] at whole
  rw [List.append_nil] at whole whole'
  obtain rfl := whole.unique whole'
  exact spelled_injective known overt known' overt'
    (Grammar.Sentence.unique ⟨_, phrase.nested⟩ ⟨_, phrase'.nested⟩).1

end Expr
end ChangeWatch
