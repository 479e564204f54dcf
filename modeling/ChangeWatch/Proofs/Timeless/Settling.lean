import ChangeWatch.Proofs.Timeless.Evaluation

/-!
An evaluation repeated at once. Every part of an expression uses its own pipe slots, and a pipe has
nothing new for a value that it has just taken in. So an expression that was evaluated finds its value
again, or fails as it did, and leaves its slots as they are.
-/
namespace ChangeWatch

open Stateful (Agree bind_apply bind_of_ok bind_of_error)

variable [Epoch]

/-- A value that any maker may have made. -/
abbrev Value.Tidy (value : Value) : Prop := value.Sound fun _ => True

def Still.Tidy (stills : List Still) : Prop := ∀ still ∈ stills, still.Sound fun _ => True

/-- A computation that changes certain slots only, and that does it once: wherever these slots are as
it has left them, it ends as before and changes nothing. -/
def Settles (own : Nat → Prop) (V : α → Prop) (E : α → α → Prop)
    (x : Eval Unit (List Still) α) : Prop :=
  ∀ stills result after, Still.Tidy stills → x ((), stills) = (result, ((), after)) →
    (∀ value, result = .ok value → V value) ∧ Still.Tidy after ∧
      (∀ slot, ¬ own slot → after[slot]? = stills[slot]?) ∧
      ∀ later : List Still, (∀ slot, own slot → later[slot]? = after[slot]?) →
        ∃ again, Agree E result again ∧ x ((), later) = (again, ((), later))

namespace Settles

variable {own others : Nat → Prop} {V : α → Prop} {W : β → Prop} {E : β → β → Prop}
  {x : Eval Unit (List Still) α} {next : α → Eval Unit (List Still) β}

theorem pure {value : α} (holds : V value) : Settles own V Eq (pure value) := by
  intro stills result after tidy ran
  cases ran
  refine ⟨?_, tidy, fun _ _ => rfl, ?_⟩
  · intro found same
    cases same
    exact holds
  · intro later _
    exact ⟨.ok value, .ok rfl, rfl⟩

/-- A sequence whose parts use different slots. -/
theorem bind {whole : Nat → Prop} (first : Settles own V Eq x)
    (rest : ∀ value, V value → Settles others W E (next value))
    (apart : ∀ slot, own slot → ¬ others slot)
    (inside : ∀ slot, own slot ∨ others slot → whole slot) : Settles whole W E (x >>= next) := by
  intro stills result after tidy ran
  rw [bind_apply] at ran
  obtain ⟨⟨⟨⟩, between⟩, ranFirst⟩ : ∃ between, (x ((), stills)).2 = between := ⟨_, rfl⟩
  cases found : (x ((), stills)).1 with
  | error cause =>
    have ranFirst : x ((), stills) = (.error cause, ((), between)) := Prod.ext found ranFirst
    rw [ranFirst] at ran
    cases ran
    obtain ⟨-, tidyAfter, frame, again⟩ := first stills _ _ tidy ranFirst
    refine ⟨fun _ impossible => (nomatch impossible), tidyAfter, ?_, ?_⟩
    · intro slot free
      exact frame slot fun owned => free (inside slot (.inl owned))
    · intro later same
      obtain ⟨_, agree, repeated⟩ := again later fun slot owned => same slot (inside slot (.inl owned))
      cases agree
      exact ⟨.error cause, .error cause, bind_of_error repeated⟩
  | ok value =>
    have ranFirst : x ((), stills) = (.ok value, ((), between)) := Prod.ext found ranFirst
    rw [ranFirst] at ran
    obtain ⟨holds, tidyBetween, frame, again⟩ := first stills _ _ tidy ranFirst
    obtain ⟨holdsFound, tidyAfter, frameRest, againRest⟩ :=
      rest value (holds value rfl) between result after tidyBetween ran
    refine ⟨holdsFound, tidyAfter, ?_, ?_⟩
    · intro slot free
      have unused := not_or.mp (mt (inside slot) free)
      rw [frameRest slot unused.2, frame slot unused.1]
    · intro later same
      -- The rest has left alone what the first part has settled.
      have settled (slot : Nat) (owned : own slot) : later[slot]? = between[slot]? := by
        rw [same slot (inside slot (.inl owned)), frameRest slot (apart slot owned)]
      have settledRest (slot : Nat) (owned : others slot) : later[slot]? = after[slot]? :=
        same slot (inside slot (.inr owned))
      obtain ⟨_, agree, repeated⟩ := again later settled
      obtain ⟨ended, agreeRest, repeatedRest⟩ := againRest later settledRest
      cases agree with
      | ok equal =>
        subst equal
        exact ⟨ended, agreeRest, (bind_of_ok repeated).trans repeatedRest⟩

/-- What follows uses no slots. -/
theorem andThen (first : Settles own V Eq x)
    (rest : ∀ value, V value → Settles (fun _ => False) W E (next value)) :
    Settles own W E (x >>= next) :=
  bind first rest (fun _ _ => id) fun _ => Or.rec id False.elim

theorem within {wider : Nat → Prop} {E : α → α → Prop} (settles : Settles own V E x)
    (slots : ∀ slot, own slot → wider slot) : Settles wider V E x := by
  intro stills result after tidy ran
  obtain ⟨holds, tidyAfter, frame, again⟩ := settles stills result after tidy ran
  refine ⟨holds, tidyAfter, ?_, ?_⟩
  · intro slot free
    exact frame slot fun owned => free (slots slot owned)
  · intro later same
    exact again later fun slot owned => same slot (slots slot owned)

theorem map {E : α → α → Prop} {E' : β → β → Prop} {f : α → β} (settles : Settles own V E x)
    (values : ∀ value, V value → W (f value))
    (equal : ∀ value again, E value again → E' (f value) (f again)) :
    Settles own W E' (do let value ← x; return f value) := by
  intro stills result after tidy ran
  obtain ⟨⟨⟨⟩, between⟩, ranFirst⟩ : ∃ between, (x ((), stills)).2 = between := ⟨_, rfl⟩
  obtain ⟨started, found⟩ : ∃ started, (x ((), stills)).1 = started := ⟨_, rfl⟩
  have ranFirst : x ((), stills) = (started, ((), between)) := Prod.ext found ranFirst
  obtain ⟨holds, tidyAfter, frame, again⟩ := settles stills _ _ tidy ranFirst
  rw [bind_apply, ranFirst] at ran
  cases started with
  | error cause =>
    cases ran
    refine ⟨fun _ impossible => (nomatch impossible), tidyAfter, frame, ?_⟩
    intro later same
    obtain ⟨_, agree, repeated⟩ := again later same
    cases agree
    exact ⟨.error cause, .error cause, bind_of_error repeated⟩
  | ok value =>
    cases ran
    refine ⟨?_, tidyAfter, frame, ?_⟩
    · intro value' same
      cases same
      exact values value (holds value rfl)
    · intro later same
      obtain ⟨_, agree, repeated⟩ := again later same
      cases agree with
      | ok related => exact ⟨_, .ok (equal _ _ related), bind_of_ok repeated⟩

theorem access {a : Access Unit α} (found : ∀ value, (a ()).1 = .ok value → V value) :
    Settles own V Eq (.access a : Eval Unit (List Still) α) := by
  intro stills result after tidy ran
  have answered (later : List Still) : (Eval.access a : Eval Unit (List Still) α) ((), later) =
      ((a ()).1.mapError EvalError.value, ((), later)) := by
    simp only [Eval.access]
    rcases a () with ⟨result, _⟩
    cases result <;> rfl
  rw [answered] at ran
  cases ran
  refine ⟨?_, tidy, fun _ _ => rfl, ?_⟩
  · intro value same
    cases ended : (a ()).1 with
    | error cause =>
      rw [ended] at same
      cases same
    | ok value' =>
      rw [ended] at same
      cases same
      exact found value ended
  · intro later _
    exact ⟨_, .refl (fun _ => rfl) _, answered later⟩

theorem ofExcept {result : Except EvalError α} (found : ∀ value, result = .ok value → V value) :
    Settles own V Eq (.ofExcept result : Eval Unit (List Still) α) := by
  intro stills ended after tidy ran
  cases ran
  exact ⟨found, tidy, fun _ _ => rfl, fun later _ => ⟨result, .refl (fun _ => rfl) result, rfl⟩⟩

end Settles

omit [Epoch] in
theorem Still.set_self {stills : List Still} {index : Nat} {still : Still}
    (held : stills[index]? = some still) : stills.set index still = stills := by
  apply List.ext_getElem?
  intro other
  rw [List.getElem?_set]
  split
  · rename_i same
    subst same
    rw [held, if_pos (List.getElem?_eq_some_iff.mp held).1]
  · rfl

theorem Still.host_settles (place : Place) (index : Nat) (name : String) {value : Value}
    (tidy : value.Tidy) (args : List Value) :
    Settles (fun slot => slot = index) (fun applied : Applied => applied.value.Tidy)
      (fun applied again => again = .unchanged applied.value)
      ((Still.host place).apply index name value args) := by
  intro stills result after tidyStills ran
  simp only [Still.host] at ran ⊢
  let home : Place := .part 0 (.part (Epoch.made index) (.part index place))
  cases found : stills[index]? with
  | none =>
    rw [found] at ran
    cases ran
    refine ⟨(fun _ passed => by cases passed), tidyStills, fun _ _ => rfl, ?_⟩
    intro later same
    have absent : later[index]? = none := (same index rfl).trans found
    exact ⟨_, .error _, by rw [absent]⟩
  | some still =>
    have sound := @Still.apply_sound _ (fun _ => True) home name value still
      (fun _ => trivial) (tidyStills still (List.mem_of_getElem? found)) tidy
    have known := (List.getElem?_eq_some_iff.mp found).1
    rw [found] at ran
    cases applying : still.apply home name value with
    | mk ended next =>
      have tidyAfter : Still.Tidy (stills.set index next) := by
        intro other member
        rw [applying] at sound
        rcases List.mem_or_eq_of_mem_set member with old | rfl
        · exact tidyStills other old
        · exact sound.1
      have frame (slot : Nat) (different : ¬ slot = index) :
          (stills.set index next)[slot]? = stills[slot]? :=
        List.getElem?_set_ne (Ne.symm different)
      have held (later : List Still) (same : ∀ slot, slot = index →
          later[slot]? = (stills.set index next)[slot]?) : later[index]? = some next := by
        rw [same index rfl, List.getElem?_set_self known]
      simp only [home] at applying
      simp only [applying] at ran
      cases ended with
      | error cause =>
        cases ran
        refine ⟨(fun _ passed => by cases passed), tidyAfter, frame, ?_⟩
        intro later same
        have again := Still.apply_again_failed applying
        refine ⟨_, .error _, ?_⟩
        simp only [held later same, again, Still.set_self (held later same)]
      | ok applied =>
        cases ran
        refine ⟨?_, tidyAfter, frame, ?_⟩
        · intro found same
          cases same
          exact sound.2 applied (congrArg Prod.fst applying)
        · intro later same
          have again := Still.apply_again tidy applying
          refine ⟨_, .ok rfl, ?_⟩
          simp only [held later same, again, Still.set_self (held later same)]

namespace Situation

variable {s : Situation σ}

/-- The slots of a part of the expression. -/
def Owns (s : Situation σ) (path : List Nat) (slot : Nat) : Prop := path <:+ s.owner slot

/-- The slots of the parts from some number on. -/
def OwnsFrom (s : Situation σ) (path : List Nat) (index : Nat) (slot : Nat) : Prop :=
  ∃ step, index ≤ step ∧ s.Owns (step :: path) slot

theorem owns_part {path : List Nat} {step slot : Nat} (owned : s.Owns (step :: path) slot) :
    s.Owns path slot :=
  (List.suffix_cons step path).trans owned

theorem owns_apart {path : List Nat} {first second slot : Nat} (different : first ≠ second)
    (owned : s.Owns (first :: path) slot) : ¬ s.Owns (second :: path) slot := by
  intro other
  exact different (Place.steps_eq owned other)

theorem owns_apartFrom {path : List Nat} {first index slot : Nat} (before : first < index)
    (owned : s.Owns (first :: path) slot) : ¬ s.OwnsFrom path index slot := by
  rintro ⟨step, later, other⟩
  have different : first ≠ step := by omega
  exact owns_apart different owned other

theorem owns_of_from {path : List Nat} {index slot : Nat} (owned : s.OwnsFrom path index slot) :
    s.Owns path slot := by
  obtain ⟨step, -, within⟩ := owned
  exact owns_part within

theorem owns_here {path : List Nat} {index slot : Nat} (owned : s.Owns (index :: path) slot) :
    s.OwnsFrom path index slot :=
  ⟨index, Nat.le_refl index, owned⟩

theorem owns_later {path : List Nat} {index slot : Nat}
    (owned : s.OwnsFrom path (index + 1) slot) : s.OwnsFrom path index slot := by
  obtain ⟨step, later, within⟩ := owned
  exact ⟨step, by omega, within⟩

theorem found_of_mirrored {P : Place → Prop} {access mirror : Access Unit Value}
    (mirrored : access.Mirrored P () mirror) (value : Value)
    (found : (access ()).1 = .ok value) : value.Sound P := by
  obtain ⟨results, -⟩ := mirrored () () rfl
  rw [found] at results
  generalize (mirror ()).1 = other at results
  cases results with
  | ok related => exact related.2

/-- A pipe uses its own slot besides those of its parts. -/
theorem pipe_settles {path : List Nat} {slot : Nat} (owned : s.owner slot = path) (name : String)
    {exp : Eval Unit (List Still) Value} {args : Eval Unit (List Still) (List Value)}
    (first : Settles (s.Owns (0 :: path)) Value.Tidy Eq exp)
    (others : Settles (s.OwnsFrom path 1) (fun values => ∀ value ∈ values, value.Tidy) Eq args)
    {f : Applied → β} {W : β → Prop} {E : β → β → Prop}
    (values : ∀ applied, applied.value.Tidy → W (f applied))
    (equal : ∀ applied, E (f applied) (f (.unchanged applied.value))) :
    Settles (s.Owns path) W E (do
      let value ← exp
      let args ← args
      let applied ← s.model.pipes.apply slot name value args
      return f applied) := by
  have outside (step : Nat) : ¬ s.Owns (step :: path) slot := by
    intro within
    have length := (owned ▸ within : step :: path <:+ path).length_le
    rw [List.length_cons] at length
    omega
  have rest (value : Value) (tidy : value.Tidy) :
      Settles (fun other => s.OwnsFrom path 1 other ∨ other = slot) W E (do
        let args ← args
        let applied ← s.model.pipes.apply slot name value args
        return f applied) := by
    refine .bind others (fun given _ => ?_) (fun other within same => ?_) fun _ => id
    · refine (Still.host_settles _ slot name tidy given).map values fun applied again same => ?_
      subst same
      exact equal applied
    · obtain ⟨step, -, within⟩ := within
      exact outside step (same ▸ within)
  refine .bind first rest (fun other within => ?_) fun other => ?_
  · rintro (later | rfl)
    · exact owns_apartFrom Nat.zero_lt_one within later
    · exact outside 0 within
  · rintro (within | later | rfl)
    · exact owns_part within
    · exact owns_of_from later
    · exact owned ▸ List.suffix_refl _

theorem binary_settles {path : List Nat} {base : Place} (op : BinaryOp) {left right : Code}
    (first : Settles (s.Owns (0 :: path)) Value.Tidy Eq (left.run s.model base))
    (second : Settles (s.Owns (1 :: path)) Value.Tidy Eq (right.run s.model base)) :
    Settles (s.Owns path) Value.Tidy Eq ((Code.binary op left right).run s.model base) := by
  have apart (slot : Nat) : s.Owns (0 :: path) slot → ¬ s.Owns (1 :: path) slot :=
    owns_apart Nat.zero_ne_one
  cases op with
  | and =>
    simp only [Code.run]
    refine .bind first (fun value _ => ?_) apart fun _ => Or.rec owns_part owns_part
    split
    · exact second.andThen fun _ _ => .pure trivial
    · exact .pure trivial
  | or =>
    simp only [Code.run]
    refine .bind first (fun value _ => ?_) apart fun _ => Or.rec owns_part owns_part
    split
    · exact .pure trivial
    · exact second.andThen fun _ _ => .pure trivial
  | _ =>
    simp only [Code.run]
    refine .bind first (fun value _ => ?_) apart fun _ => Or.rec owns_part owns_part
    refine second.andThen fun other _ => ?_
    exact .ofExcept fun _ applied => (BinaryOp.apply_foreign applied).sound _

variable (origin base : Place)

mutual
/-- However code was prepared, and wherever it is run. -/
theorem run_settles (path : List Nat) : (e : Expr) → e.Placed s.owner path →
    Settles (s.Owns path) Value.Tidy Eq ((e.lower origin path).run s.model base)
  | .implicit, _ => by
    simp only [Expr.lower, Code.run]
    exact .pure (s.foreign.context.sound _)
  | .literal value, scalar => by
    simp only [Expr.lower, Code.run]
    exact .pure ((Value.IsScalar.foreign scalar).sound _)
  | .property receiver name, placed => by
    simp only [Expr.lower]
    split
    · simp only [Code.run]
      exact .access (found_of_mirrored (.readName s.calm s.foreign name))
    · simp only [Code.run]
      have first := (run_settles (0 :: path) receiver placed).within fun _ => owns_part
      refine first.andThen fun value tidy => ?_
      exact .access (found_of_mirrored (.readField s.calm (.of_sound tidy) name))
  | .keyed receiver key, placed => by
    simp only [Expr.lower, Code.run]
    refine .bind (run_settles (0 :: path) receiver placed.1) (fun value tidy => ?_)
      (fun _ => owns_apart Nat.zero_ne_one) (fun _ => Or.rec owns_part owns_part)
    refine (run_settles (1 :: path) key placed.2).andThen fun keyValue _ => ?_
    exact .access (found_of_mirrored (.readKeyed s.calm (.of_sound tidy) rfl))
  | .method receiver name args, placed => by
    simp only [Expr.lower]
    split
    · simp only [Code.run]
      have given := (runAll_settles path 1 args placed.2).within fun _ => owns_of_from
      refine given.andThen fun values tidy => ?_
      exact .access (found_of_mirrored (.callName s.calm s.foreign name tidy))
    · simp only [Code.run]
      refine .bind (run_settles (0 :: path) receiver placed.1) (fun value tidy => ?_)
        (fun _ => owns_apartFrom Nat.zero_lt_one) (fun _ => Or.rec owns_part owns_of_from)
      refine (runAll_settles path 1 args placed.2).andThen fun values others => ?_
      exact .access (found_of_mirrored (.invoke s.calm (.of_sound tidy) name others))
  | .apply target args, placed => by
    simp only [Expr.lower, Code.run]
    refine .bind (run_settles (0 :: path) target placed.1) (fun value tidy => ?_)
      (fun _ => owns_apartFrom Nat.zero_lt_one) (fun _ => Or.rec owns_part owns_of_from)
    refine (runAll_settles path 1 args placed.2).andThen fun values others => ?_
    exact .access (found_of_mirrored (.call s.calm _ (.of_sound tidy) others))
  | .unary op operand, placed => by
    simp only [Expr.lower, Code.run_ofUnary, Code.run]
    have first := (run_settles (0 :: path) operand placed).within fun _ => owns_part
    refine first.andThen fun value _ => ?_
    exact .ofExcept fun _ applied => (UnaryOp.apply_foreign applied).sound _
  | .binary op left right, placed => by
    rw [Expr.lower, Code.run_ofBinary]
    exact binary_settles op (run_settles (0 :: path) left placed.1)
      (run_settles (1 :: path) right placed.2)
  | .conditional condition yes no, placed => by
    rw [Expr.run_lower_conditional]
    refine .bind (run_settles (0 :: path) condition placed.1) (fun value _ => ?_)
      (fun _ => owns_apartFrom Nat.zero_lt_one) (fun _ => Or.rec owns_part owns_of_from)
    split
    · exact (run_settles (1 :: path) yes placed.2.1).within fun _ => owns_here
    · exact (run_settles (2 :: path) no placed.2.2).within fun _ owned =>
        owns_later (owns_here owned)
  | .array items, placed => by
    rw [Expr.run_lower_array]
    have parts := (runAll_settles path 0 items placed).within fun _ => owns_of_from
    refine parts.andThen fun values tidy => ?_
    exact .pure ⟨.inr trivial, Value.soundItems_iff.mpr tidy⟩
  | .map entries, placed => by
    rw [Expr.run_lower_map]
    have parts := (runEntries_settles path 0 entries placed).within fun _ => owns_of_from
    refine parts.andThen fun values tidy => ?_
    refine .pure ⟨.inr trivial, (Entries.ofList_sorted _).distinct, Value.soundEntries_iff.mpr ?_⟩
    intro entry member
    exact tidy _ (List.of_mem_zip (Entries.mem_of_mem_ofList member)).2
  | .pipe exp name args slot, placed => by
    simp only [Expr.lower, Code.run]
    exact pipe_settles placed.2.2 name (run_settles (0 :: path) exp placed.1)
      (runAll_settles path 1 args placed.2.1) (fun _ => id) fun _ => rfl
  | .interpolation strings expressions, placed => by
    simp only [Expr.lower, Code.run]
    have parts := (runText_settles path 0 strings expressions placed).within fun _ => owns_of_from
    refine parts.andThen fun text _ => ?_
    exact .pure trivial

theorem runAll_settles (path : List Nat) (index : Nat) : (es : List Expr) →
    Expr.PlacedAll s.owner path index es →
    Settles (s.OwnsFrom path index) (fun values => ∀ value ∈ values, value.Tidy) Eq
      (Code.runAll s.model base (Expr.lowerAll origin path index es))
  | [], _ => by
    simp only [Expr.lowerAll, Code.runAll]
    exact .pure fun _ impossible => nomatch impossible
  | e :: es, placed => by
    simp only [Expr.lowerAll, Code.runAll]
    refine .bind (run_settles (index :: path) e placed.1) (fun value tidy => ?_)
      (fun _ => owns_apartFrom (Nat.lt_succ_self index)) (fun _ => Or.rec owns_here owns_later)
    refine (runAll_settles path (index + 1) es placed.2).andThen fun values others => ?_
    exact .pure (List.forall_mem_cons.mpr ⟨tidy, others⟩)

theorem runEntries_settles (path : List Nat) (index : Nat) : (entries : List (String × Expr)) →
    Expr.PlacedEntries s.owner path index entries →
    Settles (s.OwnsFrom path index) (fun values => ∀ value ∈ values, value.Tidy) Eq
      (Code.runAll s.model base (Expr.lowerEntries origin path index entries))
  | [], _ => by
    simp only [Expr.lowerEntries, Code.runAll]
    exact .pure fun _ impossible => nomatch impossible
  | (key, e) :: entries, placed => by
    simp only [Expr.lowerEntries, Code.runAll]
    refine .bind (run_settles (index :: path) e placed.1) (fun value tidy => ?_)
      (fun _ => owns_apartFrom (Nat.lt_succ_self index)) (fun _ => Or.rec owns_here owns_later)
    refine (runEntries_settles path (index + 1) entries placed.2).andThen fun values others => ?_
    exact .pure (List.forall_mem_cons.mpr ⟨tidy, others⟩)

theorem runText_settles (path : List Nat) (index : Nat) : (strings : List String) →
    (es : List Expr) → Expr.PlacedAll s.owner path index es →
    Settles (s.OwnsFrom path index) (fun _ => True) Eq
      (Code.runText s.model base strings (Expr.lowerAll origin path index es))
  | strings, [], _ => by
    cases strings <;> simp only [Expr.lowerAll, Code.runText] <;> exact .pure trivial
  | [], e :: es, _ => by
    simp only [Expr.lowerAll, Code.runText]
    exact .pure trivial
  | text :: strings, e :: es, placed => by
    simp only [Expr.lowerAll, Code.runText]
    refine .bind (run_settles (index :: path) e placed.1) (fun value tidy => ?_)
      (fun _ => owns_apartFrom (Nat.lt_succ_self index)) (fun _ => Or.rec owns_here owns_later)
    refine (runText_settles path (index + 1) strings es placed.2).andThen fun rest _ => ?_
    exact .pure trivial
end

/-- An evaluation repeated at once finds the same value, or notices that nothing has changed. -/
theorem program_settles {e : Expr} (placed : e.Placed s.owner []) :
    Settles (fun _ => True) (fun _ => True)
      (fun outcome again : Outcome => again = outcome ∨ again = .noChange)
      ((Program.ofExpr origin e).evaluate s.model base) := by
  have found := run_settles origin base [] e placed
  cases e with
  | pipe exp name args slot =>
    simp only [Program.ofExpr, Program.evaluate]
    refine (pipe_settles placed.2.2 name (run_settles origin base [0] exp placed.1)
      (runAll_settles origin base [] 1 args placed.2.1) ?_ ?_).within fun _ _ => trivial
    · exact fun _ _ => trivial
    · exact fun _ => .inr rfl
  | _ =>
    simp only [Program.ofExpr, Program.evaluate]
    refine (found.map (fun _ _ => trivial) ?_).within fun _ _ => trivial
    exact fun value again same => .inl (congrArg Outcome.value same.symm)

end Situation
end ChangeWatch
