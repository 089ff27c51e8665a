import BlockScript.Proofs.Descent.Recovery

/-!
# Statements and declarations by descent

## Main results

`declaration_ends`: every declaration that is begun in front of the mark ends, with the cursor
farther on, and the fold comes to the same there.
`program_ends`: so does the program, with what the fold finishes with.

## Proof strategy

1. The fold keeps as contexts what the descent keeps in calls that have not returned. A part of a
   statement begins inside of some of them (`EndsStmt`): with a value it closes them, since a
   statement that is closed there comes to the same as the one that it completes
   (`outcome_closed_congr`), and an error spoils them.
2. A declaration stands in the program or in an open block (`Place`). An error in it unwinds to
   there, and recovery goes on from where the cursor is (`outcome_fail_eq`).
3. The induction is on what is left of the text: a block, a branch and the next declaration all
   begin farther on.
-/

namespace BlockScript.Descent

open Parse Grammar

/-- Whether the fold in one mode, inside of some contexts, comes to the same as in another mode
farther on. -/
def Enters (tokens : List Token) (under : List Context) (start : Descent) (mode : Mode)
    (underNow : List Context) (later : Descent) (modeNow : Mode) : Prop :=
  ∀ contexts program,
    outcome tokens ⟨mode, under ++ contexts, program, start.errors⟩ start.position =
      outcome tokens ⟨modeNow, underNow ++ contexts, program, later.errors⟩ later.position

/-- What a descent for a statement has come to with a value, if the fold reads in a mode where it
begins. The statement closes the contexts that it began inside of. -/
structure ReadsStmt (tokens : List Token) (under : List Context) (mode : Mode) (start : Descent)
    (statement : Stmt) (next : Descent) : Prop where
  moves : start.position < next.position
  inside : next.position ≤ limit tokens
  agrees : Enters tokens under start mode [] next (.closed statement)

/-- What a descent for a statement has come to with an error. It spoils the contexts as well. -/
structure FailsStmt (tokens : List Token) (under : List Context) (mode : Mode) (start : Descent)
    (error : Error) (next : Descent) : Prop where
  stuck : Stuck tokens start error next
  givesUp : ∀ contexts program,
    outcome tokens ⟨mode, under ++ contexts, program, start.errors⟩ start.position =
      outcome tokens (State.fail ⟨mode, contexts, program, next.errors⟩ error.fault error.token)
        (next.position + 1)

def EndsStmt (tokens : List Token) (under : List Context) (mode : Mode)
    (parser : List Token → Nat → Parser Stmt) (start : Descent) : Prop :=
  Parser.Ends tokens parser start (ReadsStmt tokens under mode start)
    (FailsStmt tokens under mode start)

section

variable {tokens : List Token} {start later next : Descent} {mode modeNow : Mode}
  {under underNow : List Context} {whole : Stmt} {error : Error}

theorem Enters.of_step (before : start.position < limit tokens)
    (steps : ∀ contexts program,
      State.step ⟨mode, under ++ contexts, program, start.errors⟩ (front tokens start.position) =
        ⟨modeNow, underNow ++ contexts, program, start.errors⟩) :
    Enters tokens under start mode underNow (moved start) modeNow := by
  intro contexts program
  rw [outcome_of_lt _ before, steps]
  rfl

theorem Enters.trans {underLast : List Context} {modeLast : Mode}
    (first : Enters tokens under start mode underNow later modeNow)
    (second : Enters tokens underNow later modeNow underLast next modeLast) :
    Enters tokens under start mode underLast next modeLast :=
  fun contexts program => (first contexts program).trans (second contexts program)

theorem ReadsStmt.behind (reads : ReadsStmt tokens underNow modeNow later whole next)
    (enters : Enters tokens under start mode underNow later modeNow)
    (reaches : start.position ≤ later.position) :
    ReadsStmt tokens under mode start whole next where
  moves := Nat.lt_of_le_of_lt reaches reads.moves
  inside := reads.inside
  agrees := enters.trans reads.agrees

theorem FailsStmt.behind (fails : FailsStmt tokens underNow modeNow later error next)
    (enters : Enters tokens under start mode underNow later modeNow)
    (reaches : start.position ≤ later.position) :
    FailsStmt tokens under mode start error next where
  stuck := fails.stuck.behind reaches
  givesUp contexts program := (enters contexts program).trans (fails.givesUp contexts program)

theorem EndsStmt.behind {parser : List Token → Nat → Parser Stmt}
    (ends : EndsStmt tokens underNow modeNow parser later)
    (enters : Enters tokens under start mode underNow later modeNow)
    (reaches : start.position ≤ later.position) :
    Parser.Ends tokens parser later (ReadsStmt tokens under mode start)
      (FailsStmt tokens under mode start) :=
  ends.mono (fun _ _ reads => reads.behind enters reaches)
    fun _ _ fails => fails.behind enters reaches

theorem FailsStmt.here {fault : Fault} (inside : start.position ≤ limit tokens)
    (midway : Midway mode) (fatal : fault.isFatal = true)
    (steps : ∀ contexts program,
      State.step ⟨mode, contexts, program, start.errors⟩ (front tokens start.position) =
        State.fail ⟨mode, contexts, program, start.errors⟩ fault (front tokens start.position)) :
    FailsStmt tokens [] mode start ⟨fault, front tokens start.position⟩ start where
  stuck := .here inside fatal
  givesUp := GivesUp.of_step midway steps

/-- A branch that fails spoils the whole statement. -/
theorem FailsStmt.branch {context : Context} (isBranch : context.isBlock = false)
    (fails : FailsStmt tokens [] mode start error next) :
    FailsStmt tokens [context] mode start error next where
  stuck := fails.stuck
  givesUp contexts program := by
    refine (fails.givesUp (context :: contexts) program).trans ?_
    simp [State.fail, State.record, isBranch]

/-- An expression that fails where a statement begins with it. -/
theorem FailsExpr.statement (fails : FailsExpr tokens 0 .operand start error next)
    (purpose : Purpose) : FailsStmt tokens [] (.operand [] purpose) start error next where
  stuck := fails.stuck
  givesUp := fails.givesUp [] purpose trivial

end

/-! ### Behind an expression -/

def closer : Purpose → TokenKind
  | .condition => .symbol .rightParen
  | _ => .symbol .semicolon

/-- What is missing where something else stands behind it. -/
def demand : Purpose → Expectation
  | .expression => .semicolonAfterExpression
  | .print _ => .semicolonAfterValue
  | .initializer _ => .semicolonAfterDeclaration
  | .condition => .parenAfterCondition

theorem closer_ne_end (purpose : Purpose) : closer purpose ≠ .endOfInput := by
  cases purpose <;> simp [closer]

theorem step_over {purpose : Purpose} {value : Expr} {contexts : List Context}
    {program : List Stmt} {errors : List Error} {token : Token}
    (isOver : precedence? token.kind = none ∧ token.kind ≠ .symbol .assign) :
    State.step ⟨.operator [] purpose value, contexts, program, errors⟩ token =
      State.readEnd ⟨.operator [] purpose value, contexts, program, errors⟩ purpose value
        token := by
  simp [State.step, State.readOperator, isOver, close]

theorem readEnd_of_ne (state : State) {purpose : Purpose} (value : Expr) {token : Token}
    (differs : token.kind ≠ closer purpose) :
    state.readEnd purpose value token = state.fail (.missing (demand purpose)) token := by
  cases purpose <;> exact if_neg differs

section

variable {tokens : List Token} {start : Descent}

/-- What stands behind an expression is found to be right or wrong as by the fold. -/
theorem expect_ends {between : Descent} {value : Expr} (purpose : Purpose)
    (reads : ReadsExpr tokens 0 start value between) :
    Parser.Ends tokens (fun list _ => expect list (closer purpose) (demand purpose)) between
      (fun _ next => next = moved between ∧ (front tokens between.position).kind = closer purpose)
      (FailsStmt tokens [] (.operand [] purpose) start) := by
  by_cases closes : (front tokens between.position).kind = closer purpose
  · exact .of_ok (expect_of_eq reads.inside (closer_ne_end purpose) _ closes) ⟨rfl, closes⟩
  · have blames (contexts : List Context) (program : List Stmt) :=
      (step_over (front_of_over reads.stops)).trans
        (readEnd_of_ne ⟨_, contexts, program, between.errors⟩ value closes)
    refine .of_error (expect_of_ne reads.inside (closer_ne_end purpose) _ closes) ?_
    exact (FailsStmt.here reads.inside midway_operator rfl blames).behind
      (reads.agrees [] purpose trivial) reads.moves.le

variable (inside : start.position ≤ limit tokens)
include inside

/-- A statement that is an expression and a semicolon. -/
theorem simple_ends (purpose : Purpose) (finished : Expr → Stmt)
    (noCondition : closer purpose = .symbol .semicolon)
    (closes : ∀ (state : State) (value : Expr) (token : Token),
      token.kind = .symbol .semicolon → state.readEnd purpose value token =
        { state with mode := .closed (finished value) }) :
    EndsStmt tokens [] (.operand [] purpose)
      (fun list fuel => do
        let value ← expression list fuel
        let _ ← expect list (.symbol .semicolon) (demand purpose)
        return finished value) start := by
  refine .bind (expression_ends inside) ?_ ?_
  · intro value between reads
    rw [← noCondition]
    refine .bind (expect_ends purpose reads) ?_ fun _ _ fails => fails
    rintro _ _ ⟨rfl, kind⟩
    have before : between.position < limit tokens :=
      lt_limit_of_kind tokens (kind ▸ closer_ne_end purpose)
    refine .of_pure ⟨Nat.lt_succ_of_lt reads.moves, before, ?_⟩
    refine (reads.agrees [] purpose trivial).trans (.of_step before fun _ _ => ?_)
    rw [step_over (front_of_over reads.stops), closes _ value _ (kind.trans noCondition)]
  · exact fun error next fails => fails.statement purpose

theorem evaluation_ends :
    EndsStmt tokens [] (.operand [] .expression) evaluation start :=
  simple_ends inside .expression .expression rfl fun _ _ _ kind => if_pos kind

theorem printing_ends :
    EndsStmt tokens [] (.operand [] (.print (front tokens (start.position - 1)))) printing
      start := by
  unfold printing
  refine .after_walk (previous_eq inside) ?_
  exact simple_ends inside (.print _) (.print _) rfl fun _ _ _ kind => if_pos kind

/-! ### Variables -/

/-- What is read behind the name of a variable and its initializer, if it has one. -/
def tailMode (name : Token) : Option Expr → Mode
  | none => .variableTail name
  | some value => .operator [] (.initializer name) value

/-- What a descent for an initializer has come to with a value, or with none. -/
structure ReadsInitializer (tokens : List Token) (name : Token) (start : Descent)
    (value : Option Expr) (next : Descent) : Prop where
  reaches : start.position ≤ next.position
  inside : next.position ≤ limit tokens
  midway : Midway (tailMode name value)
  agrees : Agrees tokens start (.variableTail name) next (tailMode name value)
  closes : ∀ state : State, state.mode = tailMode name value →
    (front tokens next.position).kind = .symbol .semicolon →
      state.step (front tokens next.position) = { state with mode := .closed (.var name value) }
  blames : ∀ state : State, state.mode = tailMode name value →
    (front tokens next.position).kind ≠ .symbol .semicolon →
      state.step (front tokens next.position) =
        state.fail (.missing .semicolonAfterDeclaration) (front tokens next.position)

theorem initializer_ends (name : Token) :
    Parser.Ends tokens initializer start (ReadsInitializer tokens name start)
      (FailsStmt tokens [] (.variableTail name) start) := by
  unfold initializer
  by_cases sets : (front tokens start.position).kind = .symbol .assign
  · have before : start.position < limit tokens := lt_limit_of_kind tokens (by simp [sets])
    have enters : Agrees tokens start (.variableTail name) (moved start)
        (.operand [] (.initializer name)) :=
      .of_step before fun _ _ => by simp [State.step, sets]
    refine .after_walk (accept_of_mem inside (by simp) (by simp [sets])) ?_
    simp only [if_true]
    refine .bind (expression_ends (moved_inside before)) ?_ ?_
    · intro value next reads
      have isOver := front_of_over reads.stops
      refine .of_pure
        { reaches := (Nat.lt_of_succ_lt reads.moves).le
          inside := reads.inside
          midway := midway_operator
          agrees := enters.trans (reads.agrees [] _ trivial)
          closes := ?_
          blames := ?_ }
      · rintro ⟨mode, contexts, program, errors⟩ rfl kind
        exact (step_over isOver).trans (if_pos kind)
      · rintro ⟨mode, contexts, program, errors⟩ rfl differs
        exact (step_over isOver).trans (if_neg differs)
    · exact fun error next fails => (fails.statement _).behind enters (Nat.le_succ _)
  · -- Nothing has been read, and the fold waits for the semicolon in the mode that it was in.
    refine .after_walk (accept_of_not_mem inside (by simp) (by simpa using sets)) ?_
    simp only [Bool.false_eq_true, if_false]
    refine .of_pure
      { reaches := Nat.le_refl _
        inside := inside
        midway := by simp [Midway, tailMode]
        agrees := fun _ _ => rfl
        closes := ?_
        blames := ?_ }
    · rintro ⟨mode, contexts, program, errors⟩ rfl kind
      simp [tailMode, State.step, kind]
    · rintro ⟨mode, contexts, program, errors⟩ rfl differs
      simp [tailMode, State.step]

theorem variableDeclaration_ends :
    EndsStmt tokens [] .variableName variableDeclaration start := by
  by_cases named : (front tokens start.position).kind = .identifier
  · have before : start.position < limit tokens := lt_limit_of_kind tokens (by simp [named])
    have enters : Agrees tokens start .variableName (moved start)
        (.variableTail (front tokens start.position)) :=
      .of_step before fun _ _ => by simp [State.step, named]
    refine .after (expect_of_eq inside (by simp) _ named) ?_
    refine .bind (initializer_ends (moved_inside before) (front tokens start.position)) ?_ ?_
    · intro value between reads
      have moves : start.position < between.position := reads.reaches
      by_cases closes : (front tokens between.position).kind = .symbol .semicolon
      · have beforeNow : between.position < limit tokens :=
          lt_limit_of_kind tokens (by simp [closes])
        refine .after (expect_of_eq reads.inside (by simp) _ closes) (.of_pure ?_)
        refine ⟨Nat.lt_succ_of_lt moves, beforeNow, (enters.trans reads.agrees).trans ?_⟩
        exact .of_step beforeNow fun _ _ => reads.closes _ rfl closes
      · refine .unwind (expect_of_ne reads.inside (by simp) _ closes) ?_
        exact (FailsStmt.here reads.inside reads.midway rfl fun _ _ =>
          reads.blames _ rfl closes).behind (enters.trans reads.agrees) moves.le
    · exact fun error next fails => fails.behind enters (Nat.le_succ _)
  · refine .unwind (expect_of_ne inside (by simp) _ named) ?_
    exact .here inside (by simp [Midway]) rfl fun _ _ => by simp [State.step, named]

end

/-! ### Closed statements -/

section

variable {tokens : List Token} {start next : Descent} {mode : Mode}
  {contexts contextsNow : List Context} {program : List Stmt} {errors : List Error}
  {statement whole : Stmt} {place : Nat}

theorem midway_conditionParen : Midway .conditionParen := by
  simp [Midway]

theorem midway_statement : Midway .statement := by
  simp [Midway]

/-- A closed statement is known by where it belongs when the next token has been seen. -/
theorem outcome_closed_congr
    (settles : State.settle ⟨.closed statement, contexts, program, errors⟩
        ((front tokens place).kind = .keyword .else_) statement contexts =
      State.settle ⟨.closed whole, contextsNow, program, errors⟩
        ((front tokens place).kind = .keyword .else_) whole contextsNow) :
    outcome tokens ⟨.closed statement, contexts, program, errors⟩ place =
      outcome tokens ⟨.closed whole, contextsNow, program, errors⟩ place := by
  rcases Nat.lt_or_ge place (limit tokens) with before | atEnd
  · rw [outcome_of_lt _ before, outcome_of_lt _ before]
    simp only [State.step, State.readAfter, settles]
  · have noElse : decide ((front tokens place).kind = .keyword .else_) = false := by
      have isMark := isEnd_endMark tokens
      rw [front_of_ge tokens atEnd]
      simp_all [Token.isEnd]
    rw [noElse] at settles
    rw [outcome_of_ge _ atEnd, outcome_of_ge _ atEnd]
    simp only [State.finish, State.atEnd, settles]

theorem outcome_ifThen {condition : Expr} (noElse : (front tokens place).kind ≠ .keyword .else_) :
    outcome tokens ⟨.closed statement, .thenBranch condition :: contexts, program, errors⟩ place =
      outcome tokens ⟨.closed (.ifThen condition statement), contexts, program, errors⟩ place := by
  refine outcome_closed_congr ?_
  rw [decide_eq_false noElse]
  exact settle_congr (by rfl) (by rfl) _ _

theorem outcome_ifElse {condition : Expr} {consequent : Stmt} :
    outcome tokens
        ⟨.closed statement, .elseBranch condition consequent :: contexts, program, errors⟩ place =
      outcome tokens ⟨.closed (.ifElse condition consequent statement), contexts, program, errors⟩
        place :=
  outcome_closed_congr (settle_congr (by rfl) (by rfl) _ _)

theorem ReadsStmt.ifThen {condition : Expr} (reads : ReadsStmt tokens [] mode start statement next)
    (noElse : (front tokens next.position).kind ≠ .keyword .else_) :
    ReadsStmt tokens [.thenBranch condition] mode start (.ifThen condition statement) next where
  moves := reads.moves
  inside := reads.inside
  agrees contexts program :=
    (reads.agrees (.thenBranch condition :: contexts) program).trans (outcome_ifThen noElse)

theorem ReadsStmt.ifElse {condition : Expr} {consequent : Stmt}
    (reads : ReadsStmt tokens [] mode start statement next) :
    ReadsStmt tokens [.elseBranch condition consequent] mode start
      (.ifElse condition consequent statement) next where
  moves := reads.moves
  inside := reads.inside
  agrees contexts program :=
    (reads.agrees (.elseBranch condition consequent :: contexts) program).trans outcome_ifElse

theorem step_else {condition : Expr} {token : Token} (kind : token.kind = .keyword .else_) :
    State.step ⟨.closed statement, .thenBranch condition :: contexts, program, errors⟩ token =
      ⟨.statement, .elseBranch condition statement :: contexts, program, errors⟩ := by
  simp [State.step, State.readAfter, State.settle, kind]

/-- What begins no other statement is read as an expression. -/
theorem step_evaluates {token : Token} (noBranches : token.kind ≠ .keyword .if_)
    (noPrint : token.kind ≠ .keyword .print_) (noBlock : token.kind ≠ .symbol .leftBrace) :
    State.step ⟨.statement, contexts, program, errors⟩ token =
      State.step ⟨.operand [] .expression, contexts, program, errors⟩ token := by
  simp only [State.step, State.readStatement, State.readOperand]
  split
  · rfl
  · rfl
  · rfl
  · split <;> rfl

end

/-! ### Branches and blocks -/

/-- Whether a descent for the rest of a block ends as the fold does. -/
def EndsBlock (tokens : List Token) (body : List Stmt) (start : Descent) : Prop :=
  Parser.Ends tokens (fun list fuel => block list fuel body) start
    (fun statements => ReadsStmt tokens [.block body] .declaration start (.block statements))
    (FailsStmt tokens [.block body] .declaration start)

structure StmtsBehind (tokens : List Token) (start : Descent) : Prop where
  statement : ∀ later : Descent, start.position < later.position →
    later.position ≤ limit tokens → EndsStmt tokens [] .statement statement later
  block : ∀ later : Descent, start.position < later.position → later.position ≤ limit tokens →
    ∀ body, EndsBlock tokens body later

theorem StmtsBehind.later {tokens : List Token} {start later : Descent}
    (behind : StmtsBehind tokens start) (reaches : start.position ≤ later.position) :
    StmtsBehind tokens later where
  statement last beyond := behind.statement last (Nat.lt_of_le_of_lt reaches beyond)
  block last beyond := behind.block last (Nat.lt_of_le_of_lt reaches beyond)

section

variable {tokens : List Token} {start : Descent} (inside : start.position ≤ limit tokens)
  (behind : StmtsBehind tokens start)
include inside behind

omit inside in
/-- The branches of a conditional statement. Whether the first is the only one is told by the token
behind it. -/
theorem branches_ends (condition : Expr)
    (first : EndsStmt tokens [] .statement statement start) :
    EndsStmt tokens [.thenBranch condition] .statement
      (fun list fuel => do
        let consequent ← statement list fuel
        if ← accept list [.keyword .else_] then
          let alternative ← statement list fuel
          return .ifElse condition consequent alternative
        else return .ifThen condition consequent) start := by
  refine .bind first ?_ fun error next fails => fails.branch rfl
  intro consequent between reads
  have moves := reads.moves
  by_cases follows : (front tokens between.position).kind = .keyword .else_
  · -- The first branch waits with the condition while the second is read.
    have before : between.position < limit tokens := lt_limit_of_kind tokens (by simp [follows])
    have closed : Enters tokens [.thenBranch condition] start .statement
        [.thenBranch condition] between (.closed consequent) :=
      fun contexts => reads.agrees (.thenBranch condition :: contexts)
    have taken : Enters tokens [.thenBranch condition] start .statement
        [.elseBranch condition consequent] (moved between) .statement :=
      closed.trans (.of_step before fun _ _ => step_else follows)
    have reaches : start.position ≤ (moved between).position := Nat.le_succ_of_le moves.le
    refine .after_walk (accept_of_mem reads.inside (by simp) (by simp [follows])) ?_
    simp only [if_true]
    refine .bind (behind.statement (moved between) (Nat.lt_succ_of_lt moves) before) ?_ ?_
    · exact fun alternative next readsElse => .of_pure (readsElse.ifElse.behind taken reaches)
    · exact fun error next fails => (fails.branch rfl).behind taken reaches
  · refine .after_walk (accept_of_not_mem reads.inside (by simp) (by simpa using follows)) ?_
    simp only [Bool.false_eq_true, if_false]
    exact .of_pure (reads.ifThen follows)

theorem branching_ends : EndsStmt tokens [] .conditionParen branching start := by
  refine .of_succ ?_
  simp only [branching]
  by_cases opens : (front tokens start.position).kind = .symbol .leftParen
  · have before : start.position < limit tokens := lt_limit_of_kind tokens (by simp [opens])
    have enters : Agrees tokens start .conditionParen (moved start) (.operand [] .condition) :=
      .of_step before fun _ _ => by simp [State.step, opens]
    refine .after (expect_of_eq inside (by simp) _ opens) ?_
    refine .bind (expression_ends (moved_inside before)) ?_ ?_
    · intro condition between reads
      have moves : start.position < between.position := Nat.lt_of_succ_lt reads.moves
      refine .bind (expect_ends .condition reads) ?_ ?_
      · rintro _ _ ⟨rfl, closes⟩
        have beforeNow : between.position < limit tokens :=
          lt_limit_of_kind tokens (by simp [closes, closer])
        have judged : Enters tokens [] start .conditionParen [] between
            (.operator [] .condition condition) :=
          enters.trans (reads.agrees [] _ trivial)
        -- The condition waits in the context while the branches are read.
        have tested : Enters tokens [] start .conditionParen [.thenBranch condition]
            (moved between) .statement := by
          refine judged.trans (.of_step beforeNow fun _ _ => ?_)
          refine (step_over (front_of_over reads.stops)).trans ?_
          simp [State.readEnd, closes, closer]
        have reaches : start.position ≤ (moved between).position := Nat.le_succ_of_le moves.le
        have first := behind.statement (moved between) (Nat.lt_succ_of_lt moves) beforeNow
        exact (branches_ends (behind.later reaches) condition first).behind tested reaches
      · exact fun error next fails => fails.behind enters (Nat.le_succ _)
    · exact fun error next fails => (fails.statement _).behind enters (Nat.le_succ _)
  · refine .unwind (expect_of_ne inside (by simp) _ opens) ?_
    exact .here inside midway_conditionParen rfl fun _ _ => by simp [State.step, opens]

theorem statement_ends_of : EndsStmt tokens [] .statement statement start := by
  refine .of_succ ?_
  simp only [statement]
  refine .after_walk (peek_eq inside) ?_
  -- The first token tells the production.
  split
  next branches =>
    have before : start.position < limit tokens := lt_limit_of_kind tokens (by simp [branches])
    refine .after_walk (advance_of_lt inside before) ?_
    refine (branching_ends (moved_inside before) (behind.later (Nat.le_succ _))).behind ?_
      (Nat.le_succ _)
    exact .of_step before fun _ _ => by simp [State.step, State.readStatement, branches]
  next prints =>
    have before : start.position < limit tokens := lt_limit_of_kind tokens (by simp [prints])
    refine .after_walk (advance_of_lt inside before) ?_
    refine (printing_ends (moved_inside before)).behind ?_ (Nat.le_succ _)
    exact .of_step before fun _ _ => by simp [State.step, State.readStatement, prints, moved]
  next opens =>
    have before : start.position < limit tokens := lt_limit_of_kind tokens (by simp [opens])
    have entered : Enters tokens [] start .statement [.block []] (moved start) .declaration :=
      .of_step before fun _ _ => by simp [State.step, State.readStatement, opens]
    refine .after_walk (advance_of_lt inside before) ?_
    refine .bind (behind.block (moved start) (Nat.lt_succ_self _) before []) ?_ ?_
    · exact fun statements next reads => .of_pure (reads.behind entered (Nat.le_succ _))
    · exact fun error next fails => fails.behind entered (Nat.le_succ _)
  next noBranches noPrint noBlock =>
    refine (evaluation_ends inside).behind ?_ (Nat.le_refl _)
    intro contexts program
    exact outcome_congr midway_statement midway_operand
      (step_evaluates noBranches noPrint noBlock)

end

/-! ### Declarations -/

/-- Whether a token begins a declaration at a place. A closing brace ends the block there. -/
def Takes (place : Place) (token : Token) : Prop :=
  token.kind = .symbol .rightBrace → place = .program

/-- What a descent for a declaration has come to with a value. -/
structure ReadsDecl (tokens : List Token) (start : Descent) (statement : Stmt) (next : Descent) :
    Prop where
  moves : start.position < next.position
  inside : next.position ≤ limit tokens
  agrees : ∀ (place : Place) (done : List Stmt), Takes place (front tokens start.position) →
    outcome tokens (place.state done start.errors) start.position =
      outcome tokens (place.state (statement :: done) next.errors) next.position

/-- What a descent for a declaration has come to with an error. -/
structure FailsDecl (tokens : List Token) (start : Descent) (error : Error) (next : Descent) :
    Prop where
  stuck : Stuck tokens start error next
  givesUp : ∀ (place : Place) (done : List Stmt), Takes place (front tokens start.position) →
    outcome tokens (place.state done start.errors) start.position =
      outcome tokens ((place.state done next.errors).fail error.fault error.token)
        (next.position + 1)

/-- What a descent for a declaration has come to when it has recovered from any error. -/
structure Declares (tokens : List Token) (start : Descent) (result : Option Stmt)
    (next : Descent) : Prop where
  moves : start.position < next.position
  inside : next.position ≤ limit tokens
  agrees : ∀ (place : Place) (done : List Stmt), Takes place (front tokens start.position) →
    outcome tokens (place.state done start.errors) start.position =
      outcome tokens (place.state (result.toList ++ done) next.errors) next.position

section

variable {tokens : List Token} {start later : Descent} {mode : Mode}
  {parser : List Token → Nat → Parser Stmt}

/-- A statement that has been closed in the program or in a block is in its place. -/
theorem outcome_closed (place : Place) (statement : Stmt) (done : List Stmt) (errors : List Error)
    (position : Nat) :
    outcome tokens { place.state done errors with mode := .closed statement } position =
      outcome tokens (place.state (statement :: done) errors) position := by
  rcases Nat.lt_or_ge position (limit tokens) with before | atEnd
  · rw [outcome_of_lt _ before, outcome_of_lt _ before]
    cases place <;> rfl
  · rw [outcome_of_ge _ atEnd, outcome_of_ge _ atEnd]
    cases place <;> rfl

theorem EndsStmt.declares
    (enters : ∀ (place : Place) (done : List Stmt), Takes place (front tokens start.position) →
      outcome tokens (place.state done start.errors) start.position =
        outcome tokens { place.state done later.errors with mode := mode } later.position)
    (reaches : start.position ≤ later.position) (ends : EndsStmt tokens [] mode parser later) :
    Parser.Ends tokens parser later (ReadsDecl tokens start) (FailsDecl tokens start) := by
  refine ends.mono ?_ ?_
  · intro statement next reads
    refine ⟨Nat.lt_of_le_of_lt reaches reads.moves, reads.inside, fun place done takes => ?_⟩
    refine (enters place done takes).trans (Eq.trans ?_ (outcome_closed place statement done _ _))
    cases place <;> exact reads.agrees _ _
  · intro error next fails
    refine ⟨fails.stuck.behind reaches, fun place done takes => ?_⟩
    refine (enters place done takes).trans ?_
    cases place <;> exact fails.givesUp _ _

theorem step_var {token : Token} (place : Place) (done : List Stmt) (errors : List Error)
    (word : token.kind = .keyword .var_) :
    (place.state done errors).step token =
      { place.state done errors with mode := .variableName } := by
  cases place <;> simp [Place.state, State.step, State.readDeclaration, word]

theorem step_takes {token : Token} {place : Place} (done : List Stmt) (errors : List Error)
    (noVar : token.kind ≠ .keyword .var_) (takes : Takes place token) :
    (place.state done errors).step token =
      State.step { place.state done errors with mode := .statement } token := by
  have noEnd : token.kind = .symbol .rightBrace →
      ∀ body rest, (place.state done errors).contexts ≠ .block body :: rest := by
    intro brace body rest
    rw [takes brace]
    simp [Place.state]
  have declares : (place.state done errors).step token =
      (place.state done errors).readDeclaration token := by
    cases place <;> rfl
  rw [declares, State.readDeclaration_eq _ noVar noEnd]
  exact Clause.readStatement_mode _ _ _ _ _ token

end

section

variable {tokens : List Token} {start : Descent} (before : start.position < limit tokens)
  (behind : StmtsBehind tokens start)
include before behind

theorem attempt_ends :
    Parser.Ends tokens attempt start (ReadsDecl tokens start) (FailsDecl tokens start) := by
  refine .of_succ ?_
  simp only [attempt]
  by_cases word : (front tokens start.position).kind = .keyword .var_
  · refine .after_walk (accept_of_mem before.le (by simp) (by simp [word])) ?_
    simp only [if_true]
    refine EndsStmt.declares ?_ (Nat.le_succ _)
      (variableDeclaration_ends (moved_inside before))
    intro place done _
    rw [outcome_of_lt _ before, step_var place done _ word]
    rfl
  · refine .after_walk (accept_of_not_mem before.le (by simp) (by simpa using word)) ?_
    simp only [Bool.false_eq_true, if_false]
    refine EndsStmt.declares ?_ (Nat.le_refl _) (statement_ends_of before.le behind)
    intro place done takes
    rw [outcome_of_lt _ before, outcome_of_lt _ before, step_takes done _ word takes]

omit before behind in
theorem report_eq (error : Error) (descent : Descent) :
    report error descent = some ((), { descent with errors := error :: descent.errors }) :=
  rfl

theorem declaration_ends_of : Walk.Ends tokens declaration start (Declares tokens start) := by
  refine .of_succ ?_
  simp only [declaration]
  refine .bind (attempt_ends before behind) ?_
  intro result next ends
  cases result with
  | ok statement => exact .of_pure ⟨ends.moves, ends.inside, ends.agrees⟩
  | error error =>
    obtain ⟨fault, token⟩ := error
    -- The token that is blamed is at the cursor, so recovery and the fold leave the same one.
    obtain rfl : token = front tokens next.position := ends.stuck.blames
    simp only [recover]
    refine .after (fun _ _ => report_eq _ next) (.bind (synchronize_ends ends.stuck.inside) ?_)
    intro _ last resumes
    refine .of_pure ⟨?_, resumes.inside, fun place done takes => ?_⟩
    · -- The cursor is farther on, or it was at the mark already.
      have stuck := ends.stuck.reaches
      have reaches : min (next.position + 1) (limit tokens) ≤ last.position := resumes.reaches
      omega
    · refine (ends.givesUp place done takes).trans ?_
      rw [resumes.errors_eq]
      cases place <;> exact outcome_fail_eq resumes

end

section

variable {tokens : List Token} {start : Descent} (inside : start.position ≤ limit tokens)
  (behind : StmtsBehind tokens start)
include inside behind

omit inside behind in
/-- Where the text ends, an open block and those around it are all blamed on the mark. -/
theorem finish_unclosed {contexts : List Context} {errors : List Error} {mark : Token}
    (body program : List Stmt) (ends : mark.isEnd = true) :
    State.finish ⟨.declaration, .block body :: contexts, program, errors⟩ mark =
      State.finish (State.fail ⟨.declaration, contexts, program, errors⟩
        (.missing .braceAfterBlock) mark) mark := by
  have noSemicolon : mark.kind ≠ .symbol .semicolon := by
    simp_all [Token.isEnd]
  have kept : (contexts.dropWhile fun context => !context.isBlock).filter Context.isBlock =
      contexts.filter Context.isBlock := by
    induction contexts with
    | nil => rfl
    | cons context rest ih => cases isBlock : context.isBlock <;> simp [isBlock, ih]
  have isBlock : (Context.block body).isBlock = true := rfl
  simp [State.fail, noSemicolon, State.record, State.finish, State.atEnd, kept, isBlock]

theorem block_ends_of (body : List Stmt) : EndsBlock tokens body start := by
  refine .of_succ ?_
  simp only [block]
  refine .after_walk (check_eq inside (by simp)) (.after_walk (isAtEnd_eq inside) ?_)
  -- The block is closed, goes on with a declaration, or is left open by the text.
  by_cases closes : (front tokens start.position).kind = .symbol .rightBrace
  · have before : start.position < limit tokens := lt_limit_of_kind tokens (by simp [closes])
    simp only [closes, decide_true, Bool.true_or, if_true]
    refine .after (expect_of_eq inside (by simp) _ closes) (.of_pure ?_)
    refine ⟨Nat.lt_succ_self _, before, .of_step before fun _ _ => ?_⟩
    simp [State.step, State.readDeclaration, closes]
  rcases Nat.lt_or_ge start.position (limit tokens) with before | atEnd
  · simp only [closes, Nat.not_le_of_lt before, decide_false, Bool.or_self, Bool.false_eq_true,
      if_false]
    refine .bind_walk (declaration_ends_of before behind) ?_
    intro result next declares
    have same : Enters tokens [.block body] start .declaration [.block (result.toList ++ body)]
        next .declaration :=
      fun contexts program =>
        declares.agrees (.block contexts program) body fun brace => absurd brace closes
    refine .mono (behind.block next declares.moves declares.inside _) ?_ ?_
    · exact fun statements last reads => reads.behind same declares.moves.le
    · exact fun error last fails => fails.behind same declares.moves.le
  · simp only [closes, atEnd, decide_false, decide_true, Bool.or_true, if_true]
    refine .unwind (expect_of_ne inside (by simp) _ closes) ⟨.here inside rfl, ?_⟩
    intro contexts program
    rw [outcome_of_ge _ atEnd, outcome_of_ge _ (Nat.le_succ_of_le atEnd), front_of_ge tokens atEnd]
    exact finish_unclosed body program (isEnd_endMark tokens)

end

/-! ### Main theorems -/

section

variable {tokens : List Token}

theorem stmtsBehind (start : Descent) : StmtsBehind tokens start := by
  induction remains : limit tokens - start.position using Nat.strong_induction_on
    generalizing start with
  | _ rest ih =>
    have laterEnds (later : Descent) (beyond : start.position < later.position)
        (inside : later.position ≤ limit tokens) : StmtsBehind tokens later :=
      ih _ (by omega) later rfl
    exact
      { statement := fun later beyond inside =>
          statement_ends_of inside (laterEnds later beyond inside)
        block := fun later beyond inside body =>
          block_ends_of inside (laterEnds later beyond inside) body }

theorem statement_ends {start : Descent} (inside : start.position ≤ limit tokens) :
    EndsStmt tokens [] .statement statement start :=
  statement_ends_of inside (stmtsBehind start)

theorem block_ends {start : Descent} (inside : start.position ≤ limit tokens) (body : List Stmt) :
    EndsBlock tokens body start :=
  block_ends_of inside (stmtsBehind start) body

/-- **Every declaration moves on.** One that is begun in front of the mark ends behind its first
token, whether it is read or recovered from, and the fold comes to the same there. -/
theorem declaration_ends {start : Descent} (before : start.position < limit tokens) :
    Walk.Ends tokens declaration start (Declares tokens start) :=
  declaration_ends_of before (stmtsBehind start)

/-- **A program ends at the mark**, with what the fold finishes with. -/
theorem program_ends {start : Descent} (inside : start.position ≤ limit tokens)
    (done : List Stmt) :
    Walk.Ends tokens (fun list fuel => program list fuel done) start fun result next =>
      next.position = limit tokens ∧
        outcome tokens ⟨.declaration, [], done, start.errors⟩ start.position =
          ⟨result, next.errors.reverse⟩ := by
  induction remains : limit tokens - start.position using Nat.strong_induction_on
    generalizing start done with
  | _ rest ih =>
    refine .of_succ ?_
    simp only [program]
    refine .after (isAtEnd_eq inside) ?_
    rcases Nat.lt_or_ge start.position (limit tokens) with before | atEnd
    · simp only [decide_eq_false (Nat.not_le_of_lt before), Bool.false_eq_true, if_false]
      refine .bind (declaration_ends before) ?_
      intro result next declares
      have moves := declares.moves
      refine .mono (ih _ (by omega) declares.inside _ rfl) ?_
      exact fun _ _ ⟨atMark, same⟩ =>
        ⟨atMark, (declares.agrees .program done fun _ => rfl).trans same⟩
    · simp only [decide_eq_true atEnd, if_true]
      refine .of_pure ⟨Nat.le_antisymm inside atEnd, ?_⟩
      rw [outcome_of_ge _ atEnd]
      simp [State.finish, State.atEnd]

end

end BlockScript.Descent
