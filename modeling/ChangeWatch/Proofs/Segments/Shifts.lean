import ChangeWatch.Proofs.Unparsing.Canonical
import ChangeWatch.Expr.Interpolation

/-!
Moving a text. Where the text of an expression stands further to the right, all columns are greater by the
same distance, and where pipes have been numbered before it, all its slots are greater by their number.
Nothing else depends on the place of a text.
-/
namespace ChangeWatch

/-- The fault further to the right. -/
def Fault.moved (distance : Nat) : Fault → Fault
  | invalidToken text column => invalidToken text (distance + column)
  | unexpectedToken found expected column => unexpectedToken found expected (distance + column)
  | unexpectedEnd expected => unexpectedEnd expected
  | unterminated column => unterminated (distance + column)
  | blank column => blank (distance + column)

theorem Fault.column?_moved (distance : Nat) (fault : Fault) :
    (fault.moved distance).column? = fault.column?.map (distance + ·) := by
  cases fault <;> rfl

/-- The token further to the right. -/
def Spanned.moved (distance : Nat) (token : Spanned) : Spanned :=
  { token with start := distance + token.start, stop := distance + token.stop }

namespace Expr

mutual
/-- The expression with greater slots. -/
def raise (slots : Nat) : Expr → Expr
  | implicit => implicit
  | literal value => literal value
  | property receiver name => property (receiver.raise slots) name
  | keyed receiver key => keyed (receiver.raise slots) (key.raise slots)
  | method receiver name args => method (receiver.raise slots) name (raiseAll slots args)
  | apply target args => apply (target.raise slots) (raiseAll slots args)
  | unary op operand => unary op (operand.raise slots)
  | binary op left right => binary op (left.raise slots) (right.raise slots)
  | conditional condition yes no =>
    conditional (condition.raise slots) (yes.raise slots) (no.raise slots)
  | array items => array (raiseAll slots items)
  | map entries => map (raiseEntries slots entries)
  | pipe exp name args slot => pipe (exp.raise slots) name (raiseAll slots args) (slots + slot)
  | interpolation strings expressions => interpolation strings (raiseAll slots expressions)

def raiseAll (slots : Nat) : List Expr → List Expr
  | [] => []
  | e :: es => e.raise slots :: raiseAll slots es

def raiseEntries (slots : Nat) : List (String × Expr) → List (String × Expr)
  | [] => []
  | (key, e) :: entries => (key, e.raise slots) :: raiseEntries slots entries
end

variable {slots : Nat}

theorem raiseAll_eq (es : List Expr) : raiseAll slots es = es.map (raise slots) := by
  induction es with
  | nil => rfl
  | cons e es ih => rw [raiseAll, ih, List.map_cons]

theorem raiseEntries_eq (entries : List (String × Expr)) :
    raiseEntries slots entries = entries.map fun entry => (entry.1, entry.2.raise slots) := by
  induction entries with
  | nil => rfl
  | cons entry entries ih => rw [raiseEntries, ih, List.map_cons]

mutual
theorem pipeSlots_raise : (e : Expr) → (e.raise slots).pipeSlots = e.pipeSlots.map (slots + ·)
  | implicit | literal _ => rfl
  | property receiver _ => pipeSlots_raise receiver
  | keyed receiver key => by
    simp only [raise, pipeSlots, pipeSlots_raise receiver, pipeSlots_raise key, List.map_append]
  | method receiver _ args => by
    simp only [raise, pipeSlots, pipeSlots_raise receiver, pipeSlotsAll_raise args, List.map_append]
  | apply target args => by
    simp only [raise, pipeSlots, pipeSlots_raise target, pipeSlotsAll_raise args, List.map_append]
  | unary _ operand => pipeSlots_raise operand
  | binary _ left right => by
    simp only [raise, pipeSlots, pipeSlots_raise left, pipeSlots_raise right, List.map_append]
  | conditional condition yes no => by
    simp only [raise, pipeSlots, pipeSlots_raise condition, pipeSlots_raise yes, pipeSlots_raise no,
      List.map_append]
  | array items => pipeSlotsAll_raise items
  | map entries => pipeSlotsEntries_raise entries
  | pipe exp _ args _ => by
    simp only [raise, pipeSlots, pipeSlots_raise exp, pipeSlotsAll_raise args, List.map_append,
      List.map_cons, List.map_nil]
  | interpolation _ expressions => pipeSlotsAll_raise expressions

theorem pipeSlotsAll_raise : (es : List Expr) →
    pipeSlotsAll (raiseAll slots es) = (pipeSlotsAll es).map (slots + ·)
  | [] => rfl
  | e :: es => by
    simp only [raiseAll, pipeSlotsAll, pipeSlots_raise e, pipeSlotsAll_raise es, List.map_append]

theorem pipeSlotsEntries_raise : (entries : List (String × Expr)) →
    pipeSlotsEntries (raiseEntries slots entries) = (pipeSlotsEntries entries).map (slots + ·)
  | [] => rfl
  | (_, e) :: entries => by
    simp only [raiseEntries, pipeSlotsEntries, pipeSlots_raise e, pipeSlotsEntries_raise entries,
      List.map_append]
end

mutual
theorem raise_zero : (e : Expr) → e.raise 0 = e
  | implicit | literal _ => rfl
  | property receiver _ => by rw [raise, raise_zero receiver]
  | keyed receiver key => by rw [raise, raise_zero receiver, raise_zero key]
  | method receiver _ args => by rw [raise, raise_zero receiver, raiseAll_zero args]
  | apply target args => by rw [raise, raise_zero target, raiseAll_zero args]
  | unary _ operand => by rw [raise, raise_zero operand]
  | binary _ left right => by rw [raise, raise_zero left, raise_zero right]
  | conditional condition yes no => by
    rw [raise, raise_zero condition, raise_zero yes, raise_zero no]
  | array items => by rw [raise, raiseAll_zero items]
  | map entries => by rw [raise, raiseEntries_zero entries]
  | pipe exp _ args _ => by rw [raise, raise_zero exp, raiseAll_zero args, Nat.zero_add]
  | interpolation _ expressions => by rw [raise, raiseAll_zero expressions]

theorem raiseAll_zero : (es : List Expr) → raiseAll 0 es = es
  | [] => rfl
  | e :: es => by rw [raiseAll, raise_zero e, raiseAll_zero es]

theorem raiseEntries_zero : (entries : List (String × Expr)) → raiseEntries 0 entries = entries
  | [] => rfl
  | (_, e) :: entries => by rw [raiseEntries, raise_zero e, raiseEntries_zero entries]
end

end Expr

namespace Lexer

/-- A text is cut into the same tokens wherever it stands. -/
theorem cutAll_moved (distance : Nat) : ∀ (steps offset : Nat) (text : List Char),
    cutAll steps (distance + offset) text =
      ((cutAll steps offset text).map (List.map (Spanned.moved distance))).mapError
        (Fault.moved distance) := by
  intro steps
  induction steps with
  | zero =>
    intro offset text
    cases text <;> rfl
  | succ steps ih =>
    intro offset text
    cases text with
    | nil => rfl
    | cons c s =>
      rw [cutAll, cutAll]
      split
      · rw [Nat.add_assoc]
        exact ih (offset + c.utf8Size) s
      · cases cut c s with
        | invalid letters => rfl
        | token token letters rest =>
          simp only [Nat.add_assoc, ih (offset + byteSize letters) rest]
          cases cutAll steps (offset + byteSize letters) rest <;> rfl

end Lexer

theorem tokenizeFrom_moved (distance offset : Nat) (text : List Char) :
    tokenizeFrom (distance + offset) text =
      ((tokenizeFrom offset text).map (List.map (Spanned.moved distance))).mapError
        (Fault.moved distance) :=
  Lexer.cutAll_moved distance text.length offset text

/-- The same tokens further to the right, and a greater next slot. -/
def Cursor.moved (distance slots : Nat) (cursor : Cursor) : Cursor where
  rest := cursor.rest.map (Spanned.moved distance)
  slots := slots + cursor.slots

namespace Parse

/-- What a parser gives further to the right and behind other pipes. -/
def Moves (distance slots : Nat) (shift : α → α) (here there : Parse α) : Prop :=
  ∀ cursor, there (cursor.moved distance slots) =
    ((here cursor).map fun found => (shift found.1, found.2.moved distance slots)).mapError
      (Fault.moved distance)

namespace Moves

variable {distance slots : Nat} {shift : α → α} {turn : β → β} {here there : Parse α}
  {next next' : α → Parse β}

theorem pure (value : α) : Moves distance slots shift (pure value) (pure (shift value)) :=
  fun _ => rfl

theorem bind (first : Moves distance slots shift here there)
    (rest : ∀ value, Moves distance slots turn (next value) (next' (shift value))) :
    Moves distance slots turn (here >>= next) (there >>= next') := by
  intro cursor
  simp only [Bind.bind, StateT.bind, Except.bind, first cursor]
  cases here cursor with
  | error fault => rfl
  | ok found => exact rest found.1 found.2

/-- A choice that does not depend on the place. -/
theorem ite {yes yes' no no' : Parse β} {condition : Prop} [Decidable condition]
    (taken : Moves distance slots turn yes yes') (left : Moves distance slots turn no no') :
    Moves distance slots turn (if condition then yes else no) (if condition then yes' else no') := by
  split
  · exact taken
  · exact left

theorem unexpected (expected : Expected) :
    Moves distance slots shift (unexpected expected) (unexpected expected) := by
  rintro ⟨rest, _⟩
  cases rest <;> rfl

theorem eat (symbol : Symbol) : Moves distance slots id (eat symbol) (eat symbol) := by
  rintro ⟨rest, _⟩
  cases rest with
  | nil => rfl
  | cons token rest =>
    simp only [Parse.eat, Cursor.moved, List.map_cons, Spanned.moved]
    split <;> rfl

/-- A choice by whether a symbol comes next. -/
theorem ifEat {yes yes' no no' : Parse β} {symbol : Symbol} (taken : Moves distance slots turn yes yes')
    (left : Moves distance slots turn no no') :
    Moves distance slots turn (do if ← Parse.eat symbol then yes else no)
      (do if ← Parse.eat symbol then yes' else no') :=
  .bind (eat symbol) fun _ => .ite taken left

theorem expect (symbol : Symbol) (expected : Expected) :
    Moves distance slots id (expect symbol expected) (expect symbol expected) :=
  .ifEat (.pure ()) (unexpected expected)

theorem ident (expected : Expected) :
    Moves distance slots id (ident expected) (ident expected) := by
  rintro ⟨rest, _⟩
  cases rest with
  | nil => rfl
  | cons token rest =>
    obtain ⟨token, _, _⟩ := token
    cases token <;> rfl

theorem operator? (operators : Symbol → Option α) :
    Moves distance slots id (operator? operators) (operator? operators) := by
  rintro ⟨rest, _⟩
  cases rest with
  | nil => rfl
  | cons token rest =>
    obtain ⟨token, _, _⟩ := token
    cases token with
    | symbol sign =>
      simp only [Parse.operator?, Cursor.moved, List.map_cons, Spanned.moved]
      cases operators sign <;> rfl
    | _ => rfl

theorem slot : Moves distance slots (slots + ·) slot slot :=
  fun _ => rfl

/-- A step that gives the same further to the right is repeated equally often there. -/
theorem extend {step step' : α → Parse (Option α)}
    (steps : ∀ value, Moves distance slots (Option.map shift) (step value) (step' (shift value)))
    (value : α) : Moves distance slots shift (extend step value) (extend step' (shift value)) := by
  have repeated (count : Nat) : ∀ value,
      Moves distance slots shift (iterate step count value) (iterate step' count (shift value)) := by
    induction count with
    | zero => exact .pure
    | succ count ih =>
      intro value
      refine .bind (steps value) fun added => ?_
      cases added with
      | none => exact .pure value
      | some more => exact ih more
  intro cursor
  have same : (cursor.moved distance slots).rest.length = cursor.rest.length := List.length_map _
  rw [Parse.extend, same]
  exact repeated cursor.rest.length value cursor

theorem sequence {item item' : Parse α} (items : Moves distance slots shift item item')
    (close : Symbol) (expected : Expected) :
    Moves distance slots (List.map shift) (sequence item close expected)
      (sequence item' close expected) := by
  have step (values : List α) : Moves distance slots (Option.map (List.map shift))
      (do if ← Parse.eat .comma then return some (values ++ [← item]) else return none)
      (do if ← Parse.eat .comma then return some (values.map shift ++ [← item']) else return none) := by
    refine .ifEat (.bind items fun value => ?_) (.pure none)
    rw [← List.map_singleton, ← List.map_append]
    exact .pure (some (values ++ [value]))
  refine .ifEat (.pure []) (.bind items fun first => ?_)
  exact .bind (extend step [first]) fun values => .bind (expect close expected) fun _ => .pure values

end Moves
end Parse
end ChangeWatch
