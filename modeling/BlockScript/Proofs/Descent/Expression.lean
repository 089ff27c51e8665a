import BlockScript.Proofs.Descent.Movement

/-!
# Expressions by descent

## Main result

`expression_ends`: from every place of a text the descent for an expression ends. It has then moved
the cursor, and the fold over the tokens comes to the same behind them; or it has given up, and so
does the fold, at the same token and for the same reason.

## Proof strategy

1. The fold is compared by what it comes to in the end (`outcome`). An operand behind waiting
   operators comes to the same as the expression that is closed by what stands behind it.
2. The induction is on what is left of the text. For each place it goes from the tightest level to
   the loosest: a chain of operands moves the cursor with each of its operators.
-/

namespace BlockScript.Descent

open Parse Grammar

/-! ### What the fold comes to -/

/-- What a parse in a state comes to in front of what is left of a text. -/
def outcome (tokens : List Token) (state : State) (place : Nat) : Result :=
  ((unread tokens place).foldl State.step state).finish (endMark tokens)

/-- Whether a parse is in the midst of something that the end of the text spoils. -/
def Midway (mode : Mode) : Prop :=
  mode ≠ .declaration ∧ mode ≠ .recovering ∧ ∀ finished, mode ≠ .closed finished

section

variable {tokens : List Token} {place : Nat} {one other : State}

theorem outcome_of_lt (state : State) (before : place < limit tokens) :
    outcome tokens state place =
      outcome tokens (state.step (front tokens place)) (place + 1) := by
  rw [outcome, unread_of_lt tokens before]
  rfl

theorem outcome_of_ge (state : State) (atEnd : limit tokens ≤ place) :
    outcome tokens state place = state.finish (endMark tokens) := by
  rw [outcome, unread_of_ge tokens atEnd]
  rfl

theorem Midway.atEnd (midway : Midway one.mode) (mark : Token) :
    one.atEnd mark = one.step mark := by
  obtain ⟨noDeclaration, noRecovery, unclosed⟩ := midway
  unfold State.atEnd
  split
  · contradiction
  · contradiction
  next finished isClosed => exact absurd isClosed (unclosed finished)
  · rfl

/-- Only the next token tells one state from another. -/
theorem outcome_congr (midway : Midway one.mode) (midwayOther : Midway other.mode)
    (same : one.step (front tokens place) = other.step (front tokens place)) :
    outcome tokens one place = outcome tokens other place := by
  by_cases before : place < limit tokens
  · rw [outcome_of_lt one before, outcome_of_lt other before, same]
  · have atEnd := Nat.le_of_not_lt before
    rw [front_of_ge tokens atEnd] at same
    rw [outcome_of_ge one atEnd, outcome_of_ge other atEnd, State.finish, State.finish,
      midway.atEnd, midwayOther.atEnd, same]

/-- What is given up at the end of the text is given up for good. -/
theorem outcome_fail (midway : Midway one.mode) {fault : Fault}
    (gives : one.step (front tokens place) = other.fail fault (front tokens place)) :
    outcome tokens one place =
      outcome tokens (other.fail fault (front tokens place)) (place + 1) := by
  by_cases before : place < limit tokens
  · rw [outcome_of_lt one before, gives]
  · have atEnd := Nat.le_of_not_lt before
    have stays : ∀ state : State, state.mode = .declaration ∨ state.mode = .recovering →
        state.atEnd (endMark tokens) = state := by
      rintro ⟨_, _, _, _⟩ (rfl | rfl) <;> rfl
    have isOver : (other.fail fault (front tokens place)).mode = .declaration ∨
        (other.fail fault (front tokens place)).mode = .recovering := by
      simp only [State.fail]
      split
      · exact .inl rfl
      · exact .inr rfl
    rw [outcome_of_ge one atEnd, outcome_of_ge _ (Nat.le_succ_of_le atEnd), State.finish,
      State.finish, stays _ isOver, midway.atEnd, ← front_of_ge tokens atEnd, gives]

end

/-! ### Agreement -/

section

variable (tokens : List Token)

/-- Whether the fold in one mode at the start of a stretch comes to the same as in another mode
behind it, wherever it is. -/
def Agrees (start : Descent) (mode : Mode) (next : Descent) (reached : Mode) : Prop :=
  ∀ contexts program,
    outcome tokens ⟨mode, contexts, program, start.errors⟩ start.position =
      outcome tokens ⟨reached, contexts, program, next.errors⟩ next.position

/-- Whether the fold gives up what it began in a mode where the descent does. -/
def GivesUp (start : Descent) (mode : Mode) (error : Error) (next : Descent) : Prop :=
  ∀ contexts program,
    outcome tokens ⟨mode, contexts, program, start.errors⟩ start.position =
      outcome tokens (State.fail ⟨mode, contexts, program, next.errors⟩ error.fault error.token)
        (next.position + 1)

/-- Whether a descent has come to a token that fits nowhere. -/
structure Stuck (start : Descent) (error : Error) (next : Descent) : Prop where
  reaches : start.position ≤ next.position
  inside : next.position ≤ limit tokens
  fatal : error.fault.isFatal = true
  blames : error.token = front tokens next.position

end

section

variable {tokens : List Token} {start middle next : Descent} {mode between reached : Mode}
  {error : Error}

theorem Agrees.trans (first : Agrees tokens start mode middle between)
    (second : Agrees tokens middle between next reached) : Agrees tokens start mode next reached :=
  fun contexts program => (first contexts program).trans (second contexts program)

theorem Agrees.givesUp (first : Agrees tokens start mode middle between)
    (second : GivesUp tokens middle between error next) : GivesUp tokens start mode error next :=
  fun contexts program => (first contexts program).trans (second contexts program)

theorem Agrees.of_step (before : start.position < limit tokens)
    (steps : ∀ contexts program,
      State.step ⟨mode, contexts, program, start.errors⟩ (front tokens start.position) =
        ⟨reached, contexts, program, start.errors⟩) :
    Agrees tokens start mode (moved start) reached := by
  intro contexts program
  rw [outcome_of_lt _ before, steps]
  rfl

theorem GivesUp.of_step {fault : Fault} (midway : Midway mode)
    (steps : ∀ contexts program,
      State.step ⟨mode, contexts, program, start.errors⟩ (front tokens start.position) =
        State.fail ⟨mode, contexts, program, start.errors⟩ fault (front tokens start.position)) :
    GivesUp tokens start mode ⟨fault, front tokens start.position⟩ start :=
  fun contexts program => outcome_fail midway (steps contexts program)

theorem Stuck.here {fault : Fault} (inside : start.position ≤ limit tokens)
    (fatal : fault.isFatal = true) :
    Stuck tokens start ⟨fault, front tokens start.position⟩ start :=
  ⟨Nat.le_refl _, inside, fatal, rfl⟩

theorem Stuck.behind (stuck : Stuck tokens middle error next)
    (reaches : start.position ≤ middle.position) : Stuck tokens start error next :=
  { stuck with reaches := reaches.trans stuck.reaches }

end

/-! ### Closing -/

section

variable {tokens : List Token} {frames : List Frame} {purpose : Purpose} {operand : Expr}
  {contexts : List Context} {program : List Stmt} {errors : List Error}

theorem midway_operand : Midway (.operand frames purpose) := by
  simp [Midway]

theorem midway_operator : Midway (.operator frames purpose operand) := by
  simp [Midway]

theorem readEnd_mode (mode other : Mode) (token : Token) :
    State.readEnd ⟨mode, contexts, program, errors⟩ purpose operand token =
      State.readEnd ⟨other, contexts, program, errors⟩ purpose operand token := by
  cases purpose <;> simp only [State.readEnd] <;> split <;> rfl

/-- What is read behind an operand is told by what the operators that wait are closed to. -/
theorem step_congr {framesNow : List Frame} {operandNow : Expr} {errorsNow : List Error}
    {token : Token}
    (operators : ∀ precedence, precedence? token.kind = some precedence → errors = errorsNow ∧
      reduce precedence frames operand = reduce precedence framesNow operandNow)
    (assigns : token.kind = .symbol .assign → errors = errorsNow ∧
      reduce 0 frames operand = reduce 0 framesNow operandNow)
    (closes : close errors frames operand = close errorsNow framesNow operandNow) :
    State.step ⟨.operator frames purpose operand, contexts, program, errors⟩ token =
      State.step ⟨.operator framesNow purpose operandNow, contexts, program, errorsNow⟩ token := by
  simp only [State.step, State.readOperator]
  split
  next precedence binds =>
    obtain ⟨rfl, same⟩ := operators precedence binds
    rw [same]
  next =>
    split
    next sets =>
      obtain ⟨rfl, same⟩ := assigns sets
      rw [same]
    next =>
      rw [closes]
      split
      · rfl
      · exact readEnd_mode _ _ token

end

section

variable {tokens : List Token} {start : Descent}

theorem front_of_stops {level place : Nat} (stops : Stops level (unread tokens place)) :
    (∀ tighter, level ≤ tighter → (front tokens place).kind ∉ operators tighter) ∧
      (level = 0 → (front tokens place).kind ≠ .symbol .assign) := by
  by_cases before : place < limit tokens
  · refine stops (front tokens place) ?_
    rw [unread_of_lt tokens before]
    rfl
  · -- The mark is no operator.
    have isMark : (front tokens place).kind = .endOfInput := by
      have ends := isEnd_front tokens place
      rw [decide_eq_true (Nat.le_of_not_lt before)] at ends
      simpa [Token.isEnd] using ends
    rw [isMark]
    refine ⟨fun tighter _ member => ?_, by simp⟩
    rw [← precedence?_eq_some_iff] at member
    cases member

theorem stops_of_front {level place : Nat}
    (noOperator : ∀ tighter, level ≤ tighter → (front tokens place).kind ∉ operators tighter)
    (noAssign : level = 0 → (front tokens place).kind ≠ .symbol .assign) :
    Stops level (unread tokens place) := by
  intro next first
  have same : front tokens place = next := by
    rw [front, List.headD_eq_head?_getD, Option.mem_def.mp first]
    rfl
  rw [← same]
  exact ⟨noOperator, noAssign⟩

/-- An expression is over where neither an operator nor an equals sign follows. -/
theorem front_of_over {place : Nat} (isOver : Stops 0 (unread tokens place)) :
    precedence? (front tokens place).kind = none ∧
      (front tokens place).kind ≠ .symbol .assign := by
  obtain ⟨noOperator, noAssign⟩ := front_of_stops isOver
  refine ⟨Option.eq_none_iff_forall_not_mem.mpr fun precedence binds => ?_, noAssign rfl⟩
  exact noOperator precedence (Nat.zero_le _) (precedence?_eq_some_iff.mp binds)

theorem agrees_binary {level : Nat} {frames : List Frame} {purpose : Purpose} {operator : Token}
    {left right : Expr} (stops : Stops (level + 1) (unread tokens start.position)) :
    Agrees tokens start (.operator (.binary left operator level :: frames) purpose right) start
      (.operator frames purpose (combine left operator right)) := by
  intro contexts program
  refine outcome_congr midway_operator midway_operator (step_congr ?_ ?_ rfl)
  · intro precedence binds
    -- Any tighter operator would have gone on with the right operand.
    have bound : precedence ≤ level := by
      by_contra tighter
      exact (front_of_stops stops).1 precedence (Nat.lt_of_not_le tighter)
        (precedence?_eq_some_iff.mp binds)
    refine ⟨rfl, ?_⟩
    rw [reduce, if_pos bound]
  · intro _
    refine ⟨rfl, ?_⟩
    rw [reduce, if_pos (Nat.zero_le level)]

theorem agrees_unary {frames : List Frame} {purpose : Purpose} {operator : Token}
    {operand : Expr} :
    Agrees tokens start (.operator (.unary operator :: frames) purpose operand) start
      (.operator frames purpose (.unary operator operand)) :=
  fun _ _ => outcome_congr midway_operator midway_operator
    (step_congr (fun _ _ => ⟨rfl, rfl⟩) (fun _ => ⟨rfl, rfl⟩) rfl)

theorem agrees_assign {frames : List Frame} {purpose : Purpose} {name equals : Token}
    {value : Expr} (stops : Stops 0 (unread tokens start.position)) :
    Agrees tokens start (.operator (.assign (.lookup name) equals :: frames) purpose value) start
      (.operator frames purpose (.assign name value)) := by
  obtain ⟨noOperator, noAssign⟩ := front_of_stops stops
  intro contexts program
  refine outcome_congr midway_operator midway_operator (step_congr ?_ ?_ rfl)
  · intro precedence binds
    exact absurd (precedence?_eq_some_iff.mp binds) (noOperator precedence (Nat.zero_le _))
  · exact fun sets => absurd sets (noAssign rfl)

/-- A bad target is found when what stands on its right is complete. -/
theorem agrees_badTarget {frames : List Frame} {purpose : Purpose} {target value : Expr}
    {equals : Token} (noName : ∀ name, target ≠ .lookup name)
    (isOver : Stops 0 (unread tokens start.position)) :
    Agrees tokens start (.operator (.assign target equals :: frames) purpose value)
      { start with errors := ⟨.badTarget, equals⟩ :: start.errors }
      (.operator frames purpose target) := by
  obtain ⟨noOperator, noAssign⟩ := front_of_over isOver
  intro contexts program
  exact outcome_congr midway_operator midway_operator
    (step_congr (by simp [noOperator]) (fun sets => absurd sets noAssign)
      (close.eq_4 _ _ _ _ _ noName))

end

/-! ### Expressions -/

/-- What a descent for an expression of a level has come to with a value. -/
structure ReadsExpr (tokens : List Token) (level : Nat) (start : Descent) (value : Expr)
    (next : Descent) : Prop where
  moves : start.position < next.position
  inside : next.position ≤ limit tokens
  stops : Stops level (unread tokens next.position)
  agrees : ∀ frames purpose, Admits level frames →
    Agrees tokens start (.operand frames purpose) next (.operator frames purpose value)

/-- What a descent in the midst of an expression of a level has come to with an error. What the fold
reads where it begins depends on the operators that wait. -/
structure FailsExpr (tokens : List Token) (level : Nat) (begun : List Frame → Purpose → Mode)
    (start : Descent) (error : Error) (next : Descent) : Prop where
  stuck : Stuck tokens start error next
  givesUp : ∀ frames purpose, Admits level frames →
    GivesUp tokens start (begun frames purpose) error next

/-- Whether a descent for an expression of a level ends as the fold does. -/
def EndsExpr (tokens : List Token) (level : Nat) (parser : List Token → Nat → Parser Expr)
    (start : Descent) : Prop :=
  Parser.Ends tokens parser start (ReadsExpr tokens level start)
    (FailsExpr tokens level .operand start)

/-- What fails farther on, behind operators that wait as well, fails for what has begun before. -/
theorem FailsExpr.behind {tokens : List Token} {level levelNow : Nat}
    {begun begunNow : List Frame → Purpose → Mode} {wrap : List Frame → List Frame}
    {start later next : Descent} {error : Error}
    (fails : FailsExpr tokens levelNow begunNow later error next)
    (reaches : start.position ≤ later.position)
    (enters : ∀ frames purpose, Admits level frames →
      Agrees tokens start (begun frames purpose) later (begunNow (wrap frames) purpose))
    (admits : ∀ frames, Admits level frames → Admits levelNow (wrap frames)) :
    FailsExpr tokens level begun start error next where
  stuck := fails.stuck.behind reaches
  givesUp frames purpose fits :=
    (enters frames purpose fits).givesUp (fails.givesUp (wrap frames) purpose (admits frames fits))

theorem FailsExpr.looser {tokens : List Token} {level tighter : Nat}
    {begun : List Frame → Purpose → Mode} {start next : Descent} {error : Error}
    (fails : FailsExpr tokens tighter begun start error next) (bound : level ≤ tighter) :
    FailsExpr tokens level begun start error next where
  stuck := fails.stuck
  givesUp frames purpose admits := fails.givesUp frames purpose (admits.mono bound)

/-- What is known of all descents from places behind. -/
structure EndsBehind (tokens : List Token) (start : Descent) : Prop where
  expression : ∀ later : Descent, start.position < later.position →
    later.position ≤ limit tokens → EndsExpr tokens 0 expression later
  tier : ∀ later : Descent, start.position < later.position → later.position ≤ limit tokens →
    ∀ level, 1 ≤ level → level ≤ 7 →
      EndsExpr tokens level (fun list fuel => tier list fuel level) later
  unary : ∀ later : Descent, start.position < later.position →
    later.position ≤ limit tokens → EndsExpr tokens 7 unary later

section

variable {tokens : List Token} {start : Descent} (inside : start.position ≤ limit tokens)
  (behind : EndsBehind tokens start)

theorem stops_tightest {place : Nat} : Stops 7 (unread tokens place) := by
  refine stops_of_front (fun tighter above member => ?_) (by simp)
  exact absurd (level_of_mem_operators member).2 (Nat.not_le_of_lt above)

theorem join_eq {level : Nat} {operator : Token} (kind : operator.kind ∈ operators level)
    (left right : Expr) : join level left operator right = combine left operator right := by
  unfold operators at kind
  split at kind <;> grind [join, combine]

theorem step_sign {frames : List Frame} {purpose : Purpose} {contexts : List Context}
    {program : List Stmt} {errors : List Error} {token : Token}
    (sign : token.kind ∈ [.symbol .bang, .symbol .minus]) :
    State.step ⟨.operand frames purpose, contexts, program, errors⟩ token =
      ⟨.operand (.unary token :: frames) purpose, contexts, program, errors⟩ := by
  rw [List.mem_cons, List.mem_singleton] at sign
  rcases sign with kind | kind <;> simp [State.step, State.readOperand, kind]

theorem step_noExpression {frames : List Frame} {purpose : Purpose} {contexts : List Context}
    {program : List Stmt} {errors : List Error} {token : Token}
    (noSign : token.kind ∉ [.symbol .bang, .symbol .minus])
    (noParen : token.kind ≠ .symbol .leftParen) (unknown : atom? token = none) :
    State.step ⟨.operand frames purpose, contexts, program, errors⟩ token =
      State.fail ⟨.operand frames purpose, contexts, program, errors⟩ .noExpression token := by
  rw [List.mem_cons, List.mem_singleton, not_or] at noSign
  simp [State.step, State.readOperand, noSign, unknown]

include inside behind

/-- An operand of which the first token is no sign. -/
theorem primary_ends
    (noSign : (front tokens start.position).kind ∉ [.symbol .bang, .symbol .minus]) :
    EndsExpr tokens 7 primary start := by
  refine .of_succ ?_
  simp only [primary]
  refine .after_walk (peek_eq inside) ?_
  by_cases opens : (front tokens start.position).kind = .symbol .leftParen
  · have before : start.position < limit tokens := lt_limit_of_kind tokens (by simp [opens])
    have enters (frames : List Frame) (purpose : Purpose) : Agrees tokens start
        (.operand frames purpose) (moved start) (.operand (.group :: frames) purpose) :=
      .of_step before fun _ _ => by simp [State.step, State.readOperand, opens]
    -- The parenthesis waits below whatever is read behind it.
    simp only [if_pos opens]
    refine .after_walk (advance_of_lt inside before) ?_
    refine .bind (behind.expression (moved start) (Nat.lt_succ_self _) before) ?_ ?_
    · intro inner next read
      have moves : start.position < next.position := Nat.lt_of_succ_lt read.moves
      have agrees (frames : List Frame) (purpose : Purpose) :=
        (enters frames purpose).trans (read.agrees (.group :: frames) purpose trivial)
      by_cases closes : (front tokens next.position).kind = .symbol .rightParen
      · have beforeNow : next.position < limit tokens := lt_limit_of_kind tokens (by simp [closes])
        refine .after (expect_of_eq read.inside (by simp) _ closes) (.of_pure ?_)
        refine ⟨Nat.lt_succ_of_lt moves, beforeNow, stops_tightest, fun frames purpose _ => ?_⟩
        exact (agrees frames purpose).trans
          (.of_step beforeNow fun _ _ => Phrase.step_rightParen closes rfl)
      · obtain ⟨noOperator, noAssign⟩ := front_of_over read.stops
        refine .unwind (expect_of_ne read.inside (by simp) _ closes) ?_
        refine ⟨(Stuck.here read.inside rfl).behind moves.le, fun frames purpose _ => ?_⟩
        refine (agrees frames purpose).givesUp (.of_step midway_operator fun _ _ => ?_)
        simp [State.step, State.readOperator, noOperator, noAssign, closes, close, State.fail,
          State.record]
    · exact fun error next fails => fails.behind (Nat.le_succ _)
        (fun frames purpose _ => enters frames purpose) fun _ _ => trivial
  · simp only [if_neg opens]
    cases known : atom? (front tokens start.position) with
    | some operand =>
      have alone := (atom?_eq_some_iff.mp known).1
      have before : start.position < limit tokens := lt_limit_of_kind tokens fun mark => by
        simp [Grammar.IsAtom, mark] at alone
      refine .after_walk (advance_of_lt inside before) (.of_pure ?_)
      refine ⟨Nat.lt_succ_self _, before, stops_tightest, fun frames purpose _ => ?_⟩
      refine .of_step before fun _ _ => ?_
      rw [Phrase.step_atom alone, (atom?_eq_some_iff.mp known).2]
    | none =>
      refine .of_throw ⟨.here inside rfl, fun frames purpose _ => ?_⟩
      exact .of_step midway_operand fun _ _ => step_noExpression noSign opens known

theorem unary_ends : EndsExpr tokens 7 unary start := by
  refine .of_succ ?_
  simp only [unary]
  by_cases sign : (front tokens start.position).kind ∈ [.symbol .bang, .symbol .minus]
  · have before : start.position < limit tokens :=
      lt_limit_of_kind tokens fun mark => by simp [mark] at sign
    refine .after_walk (accept_of_mem inside (by simp) sign) ?_
    simp only [if_true]
    refine .after_walk (previous_moved before) ?_
    have enters (frames : List Frame) (purpose : Purpose) : Agrees tokens start
        (.operand frames purpose) (moved start)
        (.operand (.unary (front tokens start.position) :: frames) purpose) :=
      .of_step before fun _ _ => step_sign sign
    refine .bind (behind.unary (moved start) (Nat.lt_succ_self _) before) ?_ ?_
    · intro operand next read
      refine .of_pure ⟨Nat.lt_of_succ_lt read.moves, read.inside, read.stops, ?_⟩
      intro frames purpose admits
      exact ((enters frames purpose).trans (read.agrees _ purpose (le_refl 7))).trans agrees_unary
    · exact fun error next fails => fails.behind (Nat.le_succ _)
        (fun frames purpose _ => enters frames purpose) fun _ _ => le_refl 7
  · refine .after_walk (accept_of_not_mem inside (by simp) sign) ?_
    simp only [Bool.false_eq_true, if_false]
    exact primary_ends inside behind sign

end

/-! ### Levels and assignments -/

theorem assignment_of_ne {target value : Expr} {start : Descent} {equals : Token}
    (noName : ∀ name, target ≠ .lookup name) :
    assignment target equals value start =
      some (.ok target, { start with errors := ⟨.badTarget, equals⟩ :: start.errors }) := by
  unfold assignment
  split
  next name => exact absurd rfl (noName name)
  next => rfl

/-- An assignment is judged where its right side has ended. -/
theorem assignment_ends {tokens : List Token} {start : Descent} {target value : Expr}
    {equals : Token} (stops : Stops 0 (unread tokens start.position)) :
    Parser.Ends tokens (fun _ _ => assignment target equals value) start
      (fun whole next => next.position = start.position ∧ ∀ frames purpose,
        Agrees tokens start (.operator (.assign target equals :: frames) purpose value) next
          (.operator frames purpose whole))
      fun _ _ => False := by
  by_cases named : ∃ name, target = .lookup name
  · obtain ⟨name, rfl⟩ := named
    exact .of_ok (fun _ _ => rfl) ⟨rfl, fun _ _ => agrees_assign stops⟩
  · have noName : ∀ name, target ≠ .lookup name := not_exists.mp named
    exact .of_ok (fun _ _ => assignment_of_ne noName)
      ⟨rfl, fun _ _ => agrees_badTarget noName stops⟩

/-- What a descent through the operators of a level has come to with a value. -/
structure ReadsChain (tokens : List Token) (level : Nat) (left : Expr) (start : Descent)
    (value : Expr) (next : Descent) : Prop where
  reaches : start.position ≤ next.position
  inside : next.position ≤ limit tokens
  stops : Stops level (unread tokens next.position)
  agrees : ∀ frames purpose, Admits level frames →
    Agrees tokens start (.operator frames purpose left) next (.operator frames purpose value)

theorem EndsBehind.later {tokens : List Token} {start later : Descent}
    (behind : EndsBehind tokens start) (reaches : start.position ≤ later.position) :
    EndsBehind tokens later where
  expression last beyond := behind.expression last (Nat.lt_of_le_of_lt reaches beyond)
  tier last beyond := behind.tier last (Nat.lt_of_le_of_lt reaches beyond)
  unary last beyond := behind.unary last (Nat.lt_of_le_of_lt reaches beyond)

section

variable {tokens : List Token} {start : Descent}

theorem chain_ends {level : Nat} (low : 1 ≤ level) (high : level < 7) (left : Expr)
    (inside : start.position ≤ limit tokens) (behind : EndsBehind tokens start)
    (stops : Stops (level + 1) (unread tokens start.position)) :
    Parser.Ends tokens (fun list fuel => chain list fuel level left) start
      (ReadsChain tokens level left start)
      (FailsExpr tokens level (fun frames purpose => .operator frames purpose left) start) := by
  -- Each operator takes the cursor closer to the end of the text.
  induction remains : limit tokens - start.position using Nat.strong_induction_on
    generalizing start left with
  | _ rest ih =>
    refine .of_succ ?_
    simp only [chain]
    have plain : TokenKind.endOfInput ∉ operators level := by
      interval_cases level <;> simp [operators]
    by_cases binds : (front tokens start.position).kind ∈ operators level
    · have before : start.position < limit tokens :=
        lt_limit_of_kind tokens fun mark => plain (mark ▸ binds)
      have enters (frames : List Frame) (purpose : Purpose) (admits : Admits level frames) :
          Agrees tokens start (.operator frames purpose left) (moved start)
            (.operand (.binary left (front tokens start.position) level :: frames) purpose) := by
        refine .of_step before fun _ _ => ?_
        rw [Phrase.step_operator binds, admits.reduce_eq high]
      refine .after_walk (accept_of_mem inside plain binds) ?_
      simp only [if_true]
      refine .after_walk (previous_moved before) ?_
      refine .bind (behind.tier (moved start) (Nat.lt_succ_self _) before (level + 1)
        (Nat.le_add_left 1 level) high) ?_ ?_
      · intro right between read
        have moves : start.position < between.position := Nat.lt_of_succ_lt read.moves
        rw [join_eq binds]
        have upToHere (frames : List Frame) (purpose : Purpose) (admits : Admits level frames) :=
          ((enters frames purpose admits).trans
            (read.agrees _ purpose (Nat.lt_succ_self level))).trans (agrees_binary read.stops)
        refine .mono (ih _ ?_ _ read.inside (behind.later moves.le) read.stops rfl) ?_ ?_
        · omega
        · intro value next reads
          exact ⟨moves.le.trans reads.reaches, reads.inside, reads.stops,
            fun frames purpose admits =>
              (upToHere frames purpose admits).trans (reads.agrees frames purpose admits)⟩
        · exact fun error next fails => fails.behind moves.le upToHere fun _ admits => admits
      · exact fun error next fails => fails.behind (Nat.le_succ _) enters
          fun _ _ => Nat.lt_succ_self level
    · refine .after_walk (accept_of_not_mem inside plain binds) ?_
      simp only [Bool.false_eq_true, if_false]
      refine .of_pure ⟨Nat.le_refl _, inside, ?_, fun _ _ _ _ _ => rfl⟩
      refine stops_of_front (fun tighter above => ?_) fun zero => absurd zero (Nat.ne_of_gt low)
      rcases Nat.eq_or_lt_of_le above with rfl | beyond
      · exact binds
      · exact (front_of_stops stops).1 tighter beyond

variable (inside : start.position ≤ limit tokens) (behind : EndsBehind tokens start)
include inside behind

theorem tier_ends {level : Nat} (low : 1 ≤ level) (high : level ≤ 7) :
    EndsExpr tokens level (fun list fuel => tier list fuel level) start := by
  -- The tightest level comes first.
  induction high using Nat.decreasingInduction with
  | self =>
    refine .of_succ ?_
    simp only [tier, Nat.lt_irrefl, if_false]
    exact unary_ends inside behind
  | of_succ level high ih =>
    refine .of_succ ?_
    simp only [tier, if_pos (Nat.lt_of_succ_le high)]
    refine .bind (ih (Nat.le_add_left 1 level)) ?_ ?_
    · intro left between read
      have upToHere (frames : List Frame) (purpose : Purpose) (admits : Admits level frames) :=
        read.agrees frames purpose (admits.mono (Nat.le_succ level))
      refine .mono (chain_ends low high left read.inside (behind.later read.moves.le)
        read.stops) ?_ ?_
      · intro value next reads
        exact ⟨Nat.lt_of_lt_of_le read.moves reads.reaches, reads.inside, reads.stops,
          fun frames purpose admits =>
            (upToHere frames purpose admits).trans (reads.agrees frames purpose admits)⟩
      · exact fun error next fails =>
          fails.behind read.moves.le upToHere fun _ admits => admits
    · exact fun error next fails => fails.looser (Nat.le_succ level)

theorem expression_ends_of : EndsExpr tokens 0 expression start := by
  refine .of_succ ?_
  simp only [expression]
  refine .bind (tier_ends inside behind le_rfl (by decide)) ?_ ?_
  · intro target between read
    -- Only an equals sign tells that what has been read is a target.
    by_cases sets : (front tokens between.position).kind = .symbol .assign
    · have before : between.position < limit tokens := lt_limit_of_kind tokens (by simp [sets])
      have enters (frames : List Frame) (purpose : Purpose) (admits : Admits 0 frames) :
          Agrees tokens start (.operand frames purpose) (moved between)
            (.operand (.assign target (front tokens between.position) :: frames) purpose) := by
        refine (read.agrees frames purpose (admits.mono (Nat.zero_le 1))).trans ?_
        refine .of_step before fun _ _ => ?_
        rw [Phrase.step_equals sets, admits.reduce_eq (by decide)]
      refine .after_walk (accept_of_mem read.inside (by simp) (by simp [sets])) ?_
      simp only [if_true]
      refine .after_walk (previous_moved before) ?_
      refine .bind (behind.expression (moved between) (Nat.lt_succ_of_lt read.moves) before) ?_ ?_
      · intro value next reads
        have moves : start.position < next.position :=
          read.moves.trans (Nat.lt_of_succ_lt reads.moves)
        have upToHere (frames : List Frame) (purpose : Purpose) (admits : Admits 0 frames) :=
          (enters frames purpose admits).trans (reads.agrees _ purpose trivial)
        refine .mono (assignment_ends reads.stops) ?_ fun _ _ => False.elim
        rintro whole last ⟨stays, judged⟩
        rw [← stays] at moves
        exact ⟨moves, stays ▸ reads.inside, stays ▸ reads.stops, fun frames purpose admits =>
          (upToHere frames purpose admits).trans (judged frames purpose)⟩
      · exact fun error next fails => fails.behind (Nat.le_succ_of_le read.moves.le) enters
          fun _ _ => trivial
    · refine .after_walk (accept_of_not_mem read.inside (by simp) (by simpa using sets)) ?_
      simp only [Bool.false_eq_true, if_false]
      refine .of_pure ⟨read.moves, read.inside, ?_, fun frames purpose admits =>
        read.agrees frames purpose (admits.mono (Nat.zero_le 1))⟩
      refine stops_of_front (fun tighter _ member => ?_) fun _ => sets
      exact (front_of_stops read.stops).1 tighter (level_of_mem_operators member).1 member
  · exact fun error next fails => fails.looser (Nat.zero_le 1)

end

/-! ### Main theorem -/

section

variable {tokens : List Token}

theorem endsBehind (start : Descent) : EndsBehind tokens start := by
  induction remains : limit tokens - start.position using Nat.strong_induction_on
    generalizing start with
  | _ rest ih =>
    have laterEnds (later : Descent) (beyond : start.position < later.position)
        (inside : later.position ≤ limit tokens) : EndsBehind tokens later :=
      ih _ (by omega) later rfl
    exact
      { expression := fun later beyond inside =>
          expression_ends_of inside (laterEnds later beyond inside)
        tier := fun later beyond inside _ low high =>
          tier_ends inside (laterEnds later beyond inside) low high
        unary := fun later beyond inside =>
          unary_ends inside (laterEnds later beyond inside) }

/-- **A descent for an expression ends as the fold does.** From every place of a text it ends, with
a value behind the place or stuck at a token, and so does the fold over the same tokens. -/
theorem expression_ends {start : Descent} (inside : start.position ≤ limit tokens) :
    EndsExpr tokens 0 expression start :=
  expression_ends_of inside (endsBehind start)

end

end BlockScript.Descent
