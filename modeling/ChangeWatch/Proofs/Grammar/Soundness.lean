import ChangeWatch.Proofs.Grammar.Consumption
import ChangeWatch.Proofs.Grammar.Phrases

/-!
What the parsers give is in the grammar. Each of them takes a phrase of its category and means by it what
the grammar means, and what it leaves does not go on with the end of that phrase.
-/
namespace ChangeWatch.Grammar

open Parse (Consumes)

/-- The tokens taken are a phrase with the value found, and the others stop its ending. -/
def Found (category : Category α) (start : Nat) (used : List Token) (value : α) (after : Cursor) :
    Prop :=
  ∃ ending, Phrase (· ≠ .pipe) category used start value ending after.slots ∧
    ending.Stops after.tokens

variable {nested : Parse Expr} {cursor : Cursor}

theorem items_found (item : Item α) {p : Parse α}
    (each : ∀ cursor, Consumes cursor (Found item.category cursor.slots) p)
    (bracket : Bracket) (expected : Expected) :
    Consumes cursor (Found (.enclosed item bracket) cursor.slots)
      (Parse.sequence p bracket.right expected) := by
  refine .ifEat (fun after slots _ => .pure ⟨.closed, ?_, Ending.closed_stops _⟩) fun _ => ?_
  · rw [slots]
    exact .empty item bracket _
  refine .bind (each cursor) fun used value middle first => ?_
  have started : Found (.items item) cursor.slots used [value] middle := by
    obtain ⟨ending, phrase, stops⟩ := first
    exact ⟨ending, .one phrase, stops⟩
  refine .bind (.extend started fun used values here found => ?_) fun used values here found => ?_
  · refine .ifEat (fun middle slots _ => ?_) fun _ => .pure (by simpa using found)
    refine .bind (each middle) fun more value after last => .pure ?_
    obtain ⟨inner, before, -⟩ := found
    obtain ⟨ending, phrase, stops⟩ := last
    rw [slots] at phrase
    exact ⟨ending, by simpa using before.more phrase, stops⟩
  · refine .bind (.expect _ _) fun more _ after closes => .pure ?_
    obtain ⟨slots, rfl⟩ := closes
    obtain ⟨inner, phrase, -⟩ := found
    refine ⟨.closed, ?_, Ending.closed_stops _⟩
    rw [slots]
    simpa using phrase.filled bracket

section Nested

variable (inner : ∀ cursor, Consumes cursor (Found .conditional cursor.slots) nested)
include inner

theorem entry_found : Consumes cursor (Found .entry cursor.slots) (entry nested) := by
  have key : Consumes cursor (fun used key after => after.slots = cursor.slots ∧
      ∃ token : Token, token.key? = some key ∧ used = [token]) entry.key := by
    intro key after ran
    unfold entry.key at ran
    split at ran
    · rename_i same
      cases ran
      exact ⟨[.ident key], by simp [Cursor.tokens, same], rfl, _, rfl, rfl⟩
    · rename_i same
      cases ran
      exact ⟨[.str key], by simp [Cursor.tokens, same], rfl, _, rfl, rfl⟩
    · exact absurd ran Parse.unexpected_ne_ok
  refine .bind key fun used key named found => ?_
  obtain ⟨slots, token, known, rfl⟩ := found
  refine .bind (.expect _ _) fun used _ colon taken => ?_
  obtain ⟨slots', rfl⟩ := taken
  refine .bind (inner colon) fun used value after found => .pure ?_
  obtain ⟨ending, phrase, stops⟩ := found
  rw [slots', slots] at phrase
  exact ⟨ending, by simpa using phrase.entry known, stops⟩

theorem expressions_found (bracket : Bracket) (expected : Expected) :
    Consumes cursor (Found (.enclosed .expression bracket) cursor.slots)
      (Parse.sequence nested bracket.right expected) :=
  items_found .expression inner bracket expected

theorem primaryAfter_found (first : Spanned) :
    Consumes cursor (fun used => Found .primary cursor.slots (first.token :: used))
      (primaryAfter nested first) := by
  have constant (value : Value) (known : first.token.literal? = some value) :
      Consumes cursor (fun used => Found .primary cursor.slots (first.token :: used))
        (pure (.literal value)) :=
    .pure ⟨.closed, .literal known _, Ending.closed_stops _⟩
  unfold primaryAfter
  split
  case h_1 same | h_2 same | h_3 same | h_4 same | h_5 same | h_6 same | h_7 same =>
    exact constant _ (by rw [same]; rfl)
  case h_8 name same =>
    rw [same]
    refine .ifEat (fun opened slots _ => ?_) fun other => ?_
    · refine .bind (expressions_found inner .round _) fun used es after found => .pure ?_
      obtain ⟨ending, args, -⟩ := found
      rw [slots] at args
      exact ⟨.closed, by simpa using args.call name, Ending.closed_stops _⟩
    · exact .pure ⟨.name, .name name _, Ending.name_stops other⟩
  case h_9 same =>
    rw [same]
    refine .bind (inner cursor) fun used e middle found => ?_
    refine .bind (.expect _ _) fun closing _ after closes => .pure ?_
    obtain ⟨slots, rfl⟩ := closes
    obtain ⟨ending, phrase, -⟩ := found
    rw [← slots] at phrase
    exact ⟨.closed, by simpa using phrase.group, Ending.closed_stops _⟩
  case h_10 same =>
    rw [same]
    refine .bind (expressions_found inner .square _) fun used es after found => .pure ?_
    obtain ⟨ending, items, -⟩ := found
    exact ⟨.closed, by simpa using items.array, Ending.closed_stops _⟩
  case h_11 same =>
    rw [same]
    refine .bind (items_found .entry (fun _ => entry_found inner) .curly _)
      fun used pairs after found => .pure ?_
    obtain ⟨ending, entries, -⟩ := found
    exact ⟨.closed, by simpa using entries.map, Ending.closed_stops _⟩
  case h_12 => exact fun _ _ ran => nomatch ran

theorem primary_found : Consumes cursor (Found .primary cursor.slots) (primary nested) := by
  intro e after ran
  obtain ⟨rest, slots⟩ := cursor
  cases rest with
  | nil => cases ran
  | cons first rest =>
    have taken : Consumes { rest, slots } _ _ := primaryAfter_found inner first
    obtain ⟨used, split, found⟩ := taken e after ran
    exact ⟨first.token :: used, congrArg (first.token :: ·) split, found⟩

theorem member_found : Consumes cursor (Found .member cursor.slots) (member nested) := by
  refine .bind (primary_found inner) fun used e middle found => ?_
  have started : Found .member cursor.slots used e middle := by
    obtain ⟨ending, phrase, stops⟩ := found
    exact ⟨ending, .operand phrase, stops⟩
  refine .extend started fun used e here found => ?_
  obtain ⟨ending, receiver, stops⟩ := found
  refine .ifEat (fun dotted slots _ => ?_) fun _ => .ifEat (fun opened slots _ => ?_) fun _ =>
    .ifEat (fun opened slots called => ?_) fun _ => .pure ⟨ending, by simpa using receiver, stops⟩
  · refine .bind (.ident _) fun names name named taken => ?_
    obtain ⟨slots', rfl⟩ := taken
    refine .ifEat (fun opened slots'' _ => ?_) fun other => .pure ⟨.name, ?_, Ending.name_stops other⟩
    · refine .bind (expressions_found inner .round _) fun more es after found => .pure ?_
      obtain ⟨_, args, -⟩ := found
      rw [slots'', slots', slots] at args
      exact ⟨.closed, by simpa using receiver.method name args, Ending.closed_stops _⟩
    · rw [slots', slots]
      simpa using receiver.property name
  · refine .bind (inner opened) fun more key middle found => ?_
    refine .bind (.expect _ _) fun closing _ after closes => .pure ?_
    obtain ⟨slots', rfl⟩ := closes
    obtain ⟨_, index, -⟩ := found
    rw [slots, ← slots'] at index
    exact ⟨.closed, by simpa using receiver.keyed index, Ending.closed_stops _⟩
  · have value : ending ≠ .name := by
      rintro rfl
      exact nomatch stops .leftParen (by rw [called]; rfl)
    refine .bind (expressions_found inner .round _) fun more es after found => .pure ?_
    obtain ⟨_, args, -⟩ := found
    rw [slots] at args
    exact ⟨.closed, by simpa using receiver.apply value args, Ending.closed_stops _⟩

theorem arguments_found : Consumes cursor (fun used es after =>
    Found .arguments cursor.slots used es after ∧ Ending.pipe.Stops after.tokens)
      (pipeArguments nested) := by
  refine .and (T := fun _ _ after => Ending.pipe.Stops after.tokens) ?_ ?_
  · have started : Found .arguments cursor.slots [] [] cursor :=
      ⟨.closed, .noArgument _, Ending.closed_stops _⟩
    refine .extend started fun used es here found => ?_
    refine .ifEat (fun opened slots _ => ?_) fun _ => .pure (by simpa using found)
    refine .bind (member_found inner) fun more e after last => .pure ?_
    obtain ⟨_, before, -⟩ := found
    obtain ⟨_, member, -⟩ := last
    rw [slots] at member
    exact ⟨.closed, by simpa using before.argument member, Ending.closed_stops _⟩
  · refine .extend_last (fun es here => ?_) fun ended none => Ending.pipe_stops (by simp [none])
    refine .ifEat (fun opened _ _ => ?_) fun other => .pure (Ending.pipe_stops other)
    exact .bind (member_found inner) fun more e after _ => .pure (by simp)

theorem pipeline_found : Consumes cursor (Found .pipeline cursor.slots) (pipeline nested) := by
  refine .bind (member_found inner) fun used e middle found => ?_
  have started : Found .pipeline cursor.slots used e middle := by
    obtain ⟨ending, phrase, stops⟩ := found
    exact ⟨ending, .unpiped phrase, stops⟩
  refine .extend started fun used e here found => ?_
  refine .ifEat (fun barred slots _ => ?_) fun _ => .pure (by simpa using found)
  refine .bind (.ident _) fun names name named taken => ?_
  obtain ⟨slots', rfl⟩ := taken
  refine .bind (arguments_found inner) fun more es middle last => ?_
  refine .bind .slot fun used slot after numbered => .pure ?_
  obtain ⟨rfl, rfl, left, slots''⟩ := numbered
  obtain ⟨_, input, -⟩ := found
  obtain ⟨⟨_, args, -⟩, stops⟩ := last
  rw [slots', slots] at args
  refine ⟨.pipe, ?_, left ▸ stops⟩
  rw [slots'']
  simpa using input.pipe name args

theorem signed_found : Consumes cursor (Found .unary cursor.slots) (signed nested) := by
  -- The signs so far make a longer phrase of every phrase behind them.
  let Signs (used : List Token) (signs : List UnaryOp) (after : Cursor) : Prop :=
    after.slots = cursor.slots ∧ ∀ tokens e ending stop,
      Phrase (· ≠ .pipe) .unary tokens cursor.slots e ending stop →
        Phrase (· ≠ .pipe) .unary (used ++ tokens) cursor.slots (signs.foldr .unary e) ending stop
  have started : Signs [] [] cursor := ⟨rfl, fun _ _ _ _ phrase => phrase⟩
  refine .bind (.extend started fun used signs here found => ?_) fun used signs middle found => ?_
  · refine .bind (.operator? signOf) fun more op after taken => ?_
    obtain ⟨slots, taken⟩ := taken
    cases op with
    | none =>
      obtain ⟨rfl, rfl⟩ := taken
      exact .pure (by simpa using found)
    | some op =>
      obtain ⟨sign, known, rfl⟩ := taken
      refine .pure ⟨slots.trans found.1, fun tokens e ending stop phrase => ?_⟩
      simpa using found.2 _ _ _ _ (phrase.signed (signOf_iff.mp known))
  · refine .bind (pipeline_found inner) fun more e after last => .pure ?_
    obtain ⟨slots, lengthen⟩ := found
    obtain ⟨ending, phrase, stops⟩ := last
    rw [slots] at phrase
    exact ⟨ending, by simpa using lengthen _ _ _ _ phrase.unsigned, stops⟩

end Nested

/-- A level between its operands. -/
theorem level_found (level : Level) {operand : Parse Expr}
    (tighter : ∀ cursor, Consumes cursor (Found level.operand cursor.slots) operand) :
    Consumes cursor (Found (.binary level) cursor.slots) (Grammar.level level.operatorOf operand) := by
  refine .bind (tighter cursor) fun used e middle found => ?_
  have started : Found (.binary level) cursor.slots used e middle := by
    obtain ⟨ending, phrase, stops⟩ := found
    exact ⟨ending, .single _ phrase, stops⟩
  refine .extend started fun used e here found => ?_
  refine .bind (.operator? level.operatorOf) fun more op middle taken => ?_
  obtain ⟨slots, taken⟩ := taken
  cases op with
  | none =>
    obtain ⟨rfl, rfl⟩ := taken
    exact .pure (by simpa using found)
  | some op =>
    obtain ⟨sign, same, rfl⟩ := taken
    obtain ⟨among, spelled⟩ := Level.operatorOf_iff.mp same
    refine .bind (tighter middle) fun more e' after last => .pure ?_
    obtain ⟨_, left, -⟩ := found
    obtain ⟨ending, right, stops⟩ := last
    rw [slots] at right
    exact ⟨ending, by simpa using left.binary among spelled right, stops⟩

section Nested

variable (inner : ∀ cursor, Consumes cursor (Found .conditional cursor.slots) nested)
include inner

theorem disjunction_found :
    Consumes cursor (Found (.binary .disjunction) cursor.slots) (disjunction nested) := by
  have multiplicative (cursor : Cursor) :
      Consumes cursor (Found (.binary .multiplicative) cursor.slots) (multiplicative nested) :=
    level_found .multiplicative fun _ => signed_found inner
  have additive (cursor : Cursor) :
      Consumes cursor (Found (.binary .additive) cursor.slots) (additive nested) :=
    level_found .additive multiplicative
  have relational (cursor : Cursor) :
      Consumes cursor (Found (.binary .relational) cursor.slots) (relational nested) :=
    level_found .relational additive
  have equality (cursor : Cursor) :
      Consumes cursor (Found (.binary .equality) cursor.slots) (equality nested) :=
    level_found .equality relational
  have conjunction (cursor : Cursor) :
      Consumes cursor (Found (.binary .conjunction) cursor.slots) (conjunction nested) :=
    level_found .conjunction equality
  exact level_found .disjunction conjunction

theorem conditional_found :
    Consumes cursor (Found .conditional cursor.slots) (conditional nested) := by
  refine .bind (disjunction_found inner) fun used e middle found => ?_
  obtain ⟨first, condition, stops⟩ := found
  refine .ifEat (fun asked slots _ => ?_) fun _ => .pure ⟨first, by simpa using condition.plain, stops⟩
  refine .bind (inner asked) fun more e' between found => ?_
  obtain ⟨second, yes, stops⟩ := found
  refine .bind_split (.expect _ _) fun colon _ decided split closes => ?_
  obtain ⟨slots', rfl⟩ := closes
  refine .bind (inner decided) fun rest e'' after found => .pure ?_
  obtain ⟨ending, no, stopped⟩ := found
  rw [slots] at yes
  rw [slots'] at no
  have admitted : second ≠ .pipe := by
    rintro rfl
    exact nomatch stops .colon (by rw [split]; rfl)
  exact ⟨ending, by simpa using condition.choice yes admitted no, stopped⟩

end Nested

theorem expressionWithin_found (depth : Nat) :
    Consumes cursor (Found .conditional cursor.slots) (expressionWithin depth) := by
  induction depth generalizing cursor with
  | zero => exact .unexpected .expression
  | succ depth ih => exact conditional_found fun _ => ih

end ChangeWatch.Grammar
