import ChangeWatch.Proofs.Unparsing.Written

/-!
Canonical texts are read back: the lexer cuts them into a phrase with the expression as its meaning, and the
parser finds that phrase.
-/
namespace ChangeWatch

open Token (ident)

/-- What the lexer reads back as it is. -/
def Vocabulary.kept : Vocabulary := .legible Lexer.cut id id

theorem Value.Canonical.legible {value : Value} (canonical : value.Canonical) :
    Vocabulary.kept.literal value := by
  have word (name : String) (shape : isName name = true) :
      Lexer.Legible Lexer.cut name (Lexer.word name) := Lexer.legible_word shape
  cases value with
  | null => exact ⟨.keyword .null, rfl, word "null" (by decide)⟩
  | bool b =>
    cases b with
    | true => exact ⟨.keyword .true, rfl, word "true" (by decide)⟩
    | false => exact ⟨.keyword .false, rfl, word "false" (by decide)⟩
  | int n => exact ⟨.int n, rfl, Lexer.legible_int canonical⟩
  | str s => exact ⟨.str s, rfl, Lexer.legible_quote (IsPlainText.kept canonical)⟩
  | _ => exact canonical.elim

theorem IsReadableKey.legible {key : String} (readable : IsReadableKey key) :
    Vocabulary.kept.key key := by
  rcases readable with identifier | ⟨shape, kept⟩
  · refine ⟨ident key, rfl, ?_⟩
    rw [Expr.renderKey, if_pos identifier.1]
    exact identifier.legible.legible
  · refine ⟨.str key, rfl, ?_⟩
    rw [Expr.renderKey, if_neg (by rw [shape]; exact Bool.false_ne_true)]
    exact Lexer.legible_quote kept

namespace Expr

mutual
theorem Canonical.kept : {e : Expr} → e.Canonical → e.Over .kept
  | literal _, canonical => Value.Canonical.legible canonical
  | property _ _, ⟨canonical, identifier⟩ => ⟨canonical.imp_right kept, identifier.legible⟩
  | keyed _ _, ⟨canonical, canonical'⟩ => ⟨kept canonical, kept canonical'⟩
  | method _ _ _, ⟨canonical, identifier, canonical'⟩ =>
    ⟨canonical.imp_right kept, identifier.legible, kept_all canonical'⟩
  | apply _ _, ⟨canonical, value, canonical'⟩ => ⟨kept canonical, value, kept_all canonical'⟩
  | unary _ operand, canonical => @kept operand canonical
  | binary _ _ _, ⟨canonical, canonical'⟩ => ⟨kept canonical, kept canonical'⟩
  | conditional _ _ _, ⟨canonical, canonical', canonical''⟩ =>
    ⟨kept canonical, kept canonical', kept canonical''⟩
  | array items, canonical => @kept_all items canonical
  | map entries, canonical => @kept_entries entries canonical
  | pipe _ _ _ _, ⟨canonical, identifier, canonical'⟩ =>
    ⟨kept canonical, identifier.legible, kept_all canonical'⟩

theorem Canonical.kept_all : {es : List Expr} → CanonicalAll es → OverAll .kept es
  | [], _ => trivial
  | _ :: _, ⟨canonical, others⟩ => ⟨kept canonical, kept_all others⟩

theorem Canonical.kept_entries : {entries : List (String × Expr)} → CanonicalEntries entries →
    OverEntries .kept entries
  | [], _ => trivial
  | _ :: _, ⟨⟨known, canonical⟩, others⟩ => ⟨⟨known.readable.legible, kept canonical⟩, kept_entries others⟩
end

/-- The text of a canonical expression is cut into a phrase with the expression as its meaning. -/
theorem written {e : Expr} (canonical : e.Canonical) {start : Nat} (slots : InOrder start e.pipeSlots) :
    Written Lexer.cut .member e.render start e (start + e.pipeSlots.length) := by
  have kept : e.mapLeaves id id = e := mapLeaves_eq (fun _ _ => rfl) (fun _ _ => rfl) canonical.kept
  have found : Written Lexer.cut .member e.render start (e.mapLeaves id id) (start + e.pipeSlots.length) :=
    written_over canonical.kept slots
  rwa [kept] at found

/-- Parsing undoes rendering: the text of a canonical expression whose pipes are numbered in order is read
as that expression, with a slot for each of its pipes. -/
theorem parse_render {e : Expr} (canonical : e.Canonical) (numbered : InOrder 0 e.pipeSlots)
    (location : String) :
    parse .binding e.render location =
      .ok { expr := e, text := e.render, location, slots := e.pipeSlots.length } := by
  obtain ⟨tokens, ending, phrase, cuts⟩ := written canonical numbered
  rw [Nat.zero_add] at phrase
  have whole := cuts [] .nil
  rw [List.append_nil] at whole
  obtain ⟨spanned, ran, same⟩ := whole.tokenize 0
  have read : parseSegment 0 e.render.toList 0 = .ok (e, e.pipeSlots.length) :=
    Grammar.parseSegment_ok_iff.mpr ⟨spanned, ran, ending, same ▸ phrase.nested⟩
  simp only [parse, parseBinding, read]

namespace Sample

/-- Brackets of all kinds, signs behind each other, and pipes in pipes. -/
def expr : Expr :=
  .pipe
    (.apply
      (.method
        (.map
          [("a b", .conditional (.binary .notEqual (.name "x") (.unary .not (.unary .negate (.literal (.int 2)))))
              (.method .implicit "f" []) (.keyed (.name "y") (.literal (.str "\t'\"\\\x00")))),
            ("k", .array [.pipe (.name "p") "q" [.pipe (.literal .null) "r" [] 0, .literal (.bool false)] 1])])
        "m" [.binary .and (.name "a") (.property (.literal (.int 1)) "b")])
      [.name "z"])
    "w" [] 2

def text : String :=
  "(\x7b\"a b\": ((x != (!(-2))) ? f() : y[\"\\t'\\\"\\\\\\0\"]), k: [(p | q:(null | r):false)]\x7d" ++
    ".m((a && 1.b))(z) | w)"

theorem canonical : expr.Canonical := by
  simp only [expr, Canonical, CanonicalAll, CanonicalEntries, Expr.name, Value.Canonical, IsKey]
  decide

theorem render_expr : expr.render = text := by decide

end Sample

/-- The sample is read back from its text. -/
theorem parse_render_sample : Sample.expr.Canonical ∧ InOrder 0 Sample.expr.pipeSlots ∧
    parse .binding Sample.text "view" =
      .ok { expr := Sample.expr, text := Sample.text, location := "view", slots := 3 } :=
  ⟨Sample.canonical, rfl, Sample.render_expr ▸ parse_render Sample.canonical rfl "view"⟩

end Expr
end ChangeWatch
