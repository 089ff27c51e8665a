import BlockScript.Proofs.Grammar.Closing
import BlockScript.Proofs.Grammar.Unambiguous

/-!
# What can be derived is read

The tokens of a derivation are read without a fatal error, and what is read is the tree
that the derivation stands for.

## Main results

`Phrase.At.foldl_step`: what a parse has in hand after the tokens of an expression.
`Clause.From.foldl_step`: what it has in hand after those of a clause.
`Derives.ofTokens_eq`: the result for a whole program.

## Proof strategy

A parse closes an operator only when the next token asks for it, so after the tokens of an
expression its tree is still spread over the waiting frames. It cannot be told from a parse
that has the whole tree in hand: closing the frames gives the same in both, as far as the
level of the expression allows to close them. In the same way a statement that has been
read may still have open `if`s around it; settling it gives the same as settling its tree.
-/

namespace BlockScript.Grammar

open Parse

/-! ### Tokens of expressions -/

theorem precedence?_eq_some_iff {kind : TokenKind} {level : Nat} :
    precedence? kind = some level ↔ kind ∈ operators level := by
  constructor
  · intro known
    unfold precedence? at known
    split at known <;> cases known <;> simp [operators]
  · intro member
    unfold operators at member
    split at member <;> grind [precedence?]

theorem precedence?_eq_none {kind : TokenKind}
    (ends : kind = .symbol .semicolon ∨ kind = .symbol .rightParen) : precedence? kind = none := by
  rcases ends with rfl | rfl <;> rfl

theorem atom?_eq_some_iff {token : Token} {operand : Expr} :
    atom? token = some operand ↔ IsAtom token ∧ Phrase.atomExpr token = operand := by
  unfold atom? IsAtom Phrase.atomExpr
  cases token.literal <;> split <;> simp_all

theorem combine_eq {left right : Phrase} {operator : Token} {level : Nat}
    (kind : operator.kind ∈ operators level) :
    combine left.expr operator right.expr = (Phrase.binary left operator right).expr := by
  unfold operators at kind
  split at kind <;> grind [combine, Phrase.expr]

/-! ### Waiting operators -/

/-- Errors with those for the bad targets of a derivation added. -/
def blame (targets : List Token) (errors : List Error) : List Error :=
  (targets.map (Error.mk .badTarget)).reverse ++ errors

@[simp] theorem blame_nil (errors : List Error) : blame [] errors = errors := rfl

theorem blame_append (targets more : List Token) (errors : List Error) :
    blame (targets ++ more) errors = blame more (blame targets errors) := by
  simp [blame]

/-- Whether an operand that is read behind the frames can be an expression of a level:
the frame in front of it binds less tightly. -/
def Admits (level : Nat) : List Frame → Prop
  | .unary _ :: _ => 7 ≤ level
  | .binary _ _ precedence :: _ => precedence < level
  | _ => True

theorem Admits.mono {level tighter : Nat} {frames : List Frame} (admits : Admits level frames)
    (bound : level ≤ tighter) : Admits tighter frames := by
  unfold Admits at admits ⊢
  split
  · exact admits.trans bound
  · exact Nat.lt_of_lt_of_le admits bound
  · trivial

/-- An operator of the level closes none of the frames. -/
theorem Admits.reduce_eq {level : Nat} {frames : List Frame} (admits : Admits level frames)
    (bound : level < 7) (operand : Expr) : reduce level frames operand = (frames, operand) := by
  unfold reduce
  split
  · exact absurd admits (Nat.not_le_of_lt bound)
  · rw [if_neg (Nat.not_le_of_lt admits)]
  · rfl

/-! ### Expressions -/

namespace Phrase

/-- What is in hand when a phrase has been read behind `frames`: the frames, the operand
and the errors can be told from those with its tree in hand by no operator that can follow
it, and by nothing that ends an expression. -/
structure Read (level : Nat) (phrase : Phrase) (frames : List Frame) (errors : List Error)
    (framesNow : List Frame) (operand : Expr) (errorsNow : List Error) : Prop where
  errors_eq : 1 ≤ level → errorsNow = blame phrase.badTargets errors
  reduce_eq : 1 ≤ level → ∀ precedence ≤ level,
    reduce precedence framesNow operand = reduce precedence frames phrase.expr
  close_eq : close errorsNow framesNow operand =
    close (blame phrase.badTargets errors) frames phrase.expr

variable {level : Nat} {phrase : Phrase}

/-- Above the level of assignments, it is enough to look at operators. -/
theorem Read.of_reduce {frames framesNow : List Frame} {errors : List Error} {operand : Expr}
    (same : ∀ precedence ≤ level,
      reduce precedence framesNow operand = reduce precedence frames phrase.expr) :
    Read level phrase frames errors framesNow operand (blame phrase.badTargets errors) where
  errors_eq _ := rfl
  reduce_eq _ := same
  close_eq := by
    have closed := close_reduce (blame phrase.badTargets errors) 0 framesNow operand
    rw [← closed, same 0 (Nat.zero_le level), close_reduce]

theorem Read.looser {frames framesNow : List Frame} {errors errorsNow : List Error}
    {operand : Expr} (read : Read (level + 1) phrase frames errors framesNow operand errorsNow) :
    Read level phrase frames errors framesNow operand errorsNow where
  errors_eq _ := read.errors_eq (Nat.le_add_left 1 level)
  reduce_eq _ precedence bound :=
    read.reduce_eq (Nat.le_add_left 1 level) precedence (Nat.le_succ_of_le bound)
  close_eq := read.close_eq

section

variable {frames : List Frame} {purpose : Purpose} {contexts : List Context}
  {program : List Stmt} {errors : List Error}

theorem step_atom {token : Token} (alone : IsAtom token) :
    State.step ⟨.operand frames purpose, contexts, program, errors⟩ token =
      ⟨.operator frames purpose (atomExpr token), contexts, program, errors⟩ := by
  have known := atom?_eq_some_iff.mpr ⟨alone, rfl⟩
  unfold IsAtom at alone
  split at alone <;> simp_all [State.step, State.readOperand]

theorem step_operator {token : Token} {operand : Expr} (kind : token.kind ∈ operators level) :
    State.step ⟨.operator frames purpose operand, contexts, program, errors⟩ token =
      ⟨.operand (.binary (reduce level frames operand).2 token level ::
        (reduce level frames operand).1) purpose, contexts, program, errors⟩ := by
  simp [State.step, State.readOperator, precedence?_eq_some_iff.mpr kind]

theorem step_equals {token : Token} {operand : Expr} (kind : token.kind = .symbol .assign) :
    State.step ⟨.operator frames purpose operand, contexts, program, errors⟩ token =
      ⟨.operand (.assign (reduce 0 frames operand).2 token ::
        (reduce 0 frames operand).1) purpose, contexts, program, errors⟩ := by
  simp [State.step, State.readOperator, kind, precedence?]

theorem step_rightParen {outside : List Frame} {token : Token} {operand inner : Expr}
    {errorsNow : List Error} (kind : token.kind = .symbol .rightParen)
    (closed : close errors frames operand = ⟨some outside, inner, errorsNow⟩) :
    State.step ⟨.operator frames purpose operand, contexts, program, errors⟩ token =
      ⟨.operator outside purpose (.group inner), contexts, program, errorsNow⟩ := by
  simp [State.step, State.readOperator, kind, precedence?, closed]

/-- The tokens of an expression bring a parse from before an operand to after one. -/
theorem At.foldl_step (derived : phrase.At level) (purpose : Purpose) (contexts : List Context)
    (program : List Stmt) (errors : List Error) (frames : List Frame)
    (admits : Admits level frames) :
    ∃ framesNow operand errorsNow,
      phrase.tokens.foldl State.step ⟨.operand frames purpose, contexts, program, errors⟩ =
        ⟨.operator framesNow purpose operand, contexts, program, errorsNow⟩ ∧
      Read level phrase frames errors framesNow operand errorsNow := by
  induction derived generalizing frames errors with
  | @atom token alone =>
    exact ⟨frames, atomExpr token, errors, step_atom alone, .of_reduce (fun _ _ => rfl)⟩
  | @parens opening closing inner opens _ closes ih =>
    obtain ⟨framesNow, operand, errorsNow, reached, read⟩ :=
      ih errors (.group :: frames) trivial
    -- The closing parenthesis closes everything that waits inside of it.
    refine ⟨frames, .group inner.expr, blame inner.badTargets errors, ?_,
      .of_reduce (fun _ _ => rfl)⟩
    have opened : State.step ⟨.operand frames purpose, contexts, program, errors⟩ opening =
        ⟨.operand (.group :: frames) purpose, contexts, program, errors⟩ := by
      simp [State.step, State.readOperand, opens]
    simp only [tokens, List.foldl_append, List.foldl_cons, List.foldl_nil, opened, reached]
    exact step_rightParen closes read.close_eq
  | @unary operator operand kind _ ih =>
    obtain ⟨framesNow, last, errorsNow, reached, read⟩ :=
      ih errors (.unary operator :: frames) (le_refl 7)
    -- The operator waits until something closes it: the tree is its frame and its operand.
    obtain rfl := read.errors_eq (by decide)
    refine ⟨framesNow, last, _, ?_, .of_reduce (fun precedence bound => ?_)⟩
    · have begun : State.step ⟨.operand frames purpose, contexts, program, errors⟩ operator =
          ⟨.operand (.unary operator :: frames) purpose, contexts, program, errors⟩ := by
        rcases kind with kind | kind <;> simp [State.step, State.readOperand, kind]
      rw [tokens, List.foldl_cons, begun, reached]
      rfl
    · rw [read.reduce_eq (by decide) precedence bound, reduce]
      rfl
  | @binary level left right operator kind _ _ leftIh rightIh =>
    obtain ⟨low, high⟩ := level_of_mem_operators kind
    obtain ⟨leftFrames, leftOperand, _, leftReached, leftRead⟩ := leftIh errors frames admits
    obtain rfl := leftRead.errors_eq low
    obtain ⟨rightFrames, rightOperand, _, rightReached, rightRead⟩ :=
      rightIh (blame left.badTargets errors) (.binary left.expr operator level :: frames)
        (Nat.lt_succ_self level)
    obtain rfl := rightRead.errors_eq (Nat.le_add_left 1 level)
    refine ⟨rightFrames, rightOperand, _, ?_, .of_reduce (fun precedence bound => ?_)⟩
    · -- The operator closes the left operand, and no more than that.
      have closed := (leftRead.reduce_eq low level le_rfl).trans
        (admits.reduce_eq (Nat.lt_succ_of_le high) left.expr)
      rw [tokens, List.foldl_append, leftReached, List.foldl_cons, step_operator kind, closed,
        rightReached, badTargets, blame_append]
    -- An operator that may follow closes the right operand and then the whole.
    · rw [rightRead.reduce_eq (Nat.le_add_left 1 level) precedence (Nat.le_succ_of_le bound),
        reduce, if_pos bound, combine_eq kind]
  | @assign target value equals kind _ _ targetIh valueIh =>
    obtain ⟨targetFrames, targetOperand, _, targetReached, targetRead⟩ :=
      targetIh errors frames (admits.mono (Nat.zero_le 1))
    obtain rfl := targetRead.errors_eq le_rfl
    obtain ⟨valueFrames, valueOperand, errorsNow, valueReached, valueRead⟩ :=
      valueIh (blame target.badTargets errors) (.assign target.expr equals :: frames) trivial
    refine ⟨valueFrames, valueOperand, errorsNow, ?_, ?_⟩
    · have closed := (targetRead.reduce_eq le_rfl 0 (Nat.zero_le 1)).trans
        (admits.reduce_eq (by decide) target.expr)
      rw [tokens, List.foldl_append, targetReached, List.foldl_cons, step_equals kind, closed,
        valueReached]
    -- Only what ends the expression closes an assignment, and judges its target.
    · refine ⟨by simp, by simp, ?_⟩
      rw [valueRead.close_eq, badTargets, blame_append, blame_append, expr]
      cases named : target.name? with
      | some name =>
        rw [(expr_eq_lookup_iff target name).mpr named, close]
        rfl
      | none =>
        rw [close]
        · rfl
        · intro name same
          rw [(expr_eq_lookup_iff target name).mp same] at named
          cases named
  | tighter _ ih =>
    obtain ⟨framesNow, operand, errorsNow, reached, read⟩ :=
      ih errors frames (admits.mono (Nat.le_succ _))
    exact ⟨framesNow, operand, errorsNow, reached, read.looser⟩

variable {ending : Token}

/-- A whole expression is in hand when the token that ends it comes. -/
theorem At.foldl_ending (derived : phrase.At 0) (purpose : Purpose) (contexts : List Context)
    (program : List Stmt) (errors : List Error)
    (ends : ending.kind = .symbol .semicolon ∨ ending.kind = .symbol .rightParen) :
    ∃ mode, (phrase.tokens ++ [ending]).foldl State.step
        ⟨.operand [] purpose, contexts, program, errors⟩ =
      State.readEnd ⟨mode, contexts, program, blame phrase.badTargets errors⟩ purpose
        phrase.expr ending := by
  -- Without frames in front of it the expression is closed as a whole.
  obtain ⟨framesNow, operand, errorsNow, reached, read⟩ :=
    derived.foldl_step purpose contexts program errors [] trivial
  refine ⟨.operator framesNow purpose operand, ?_⟩
  have noOperator := precedence?_eq_none ends
  have noEquals : ending.kind ≠ .symbol .assign := by rcases ends with kind | kind <;> simp [kind]
  rw [List.foldl_append, reached]
  simp [State.step, State.readOperator, noOperator, noEquals, read.close_eq, close]

/-- The statement that is complete with a value and a semicolon. -/
def complete? (value : Expr) : Purpose → Option Stmt
  | .expression => some (.expression value)
  | .print keyword => some (.print keyword value)
  | .initializer name => some (.var name (some value))
  | .condition => none

theorem At.foldl_semicolon (derived : phrase.At 0) (purpose : Purpose) (contexts : List Context)
    (program : List Stmt) (errors : List Error) (ends : ending.kind = .symbol .semicolon)
    {stmt : Stmt} (complete : complete? phrase.expr purpose = some stmt) :
    (phrase.tokens ++ [ending]).foldl State.step
        ⟨.operand [] purpose, contexts, program, errors⟩ =
      ⟨.closed stmt, contexts, program, blame phrase.badTargets errors⟩ := by
  obtain ⟨mode, reached⟩ := derived.foldl_ending purpose contexts program errors (.inl ends)
  rw [reached]
  cases purpose <;> cases complete <;> simp [State.readEnd, ends]

theorem At.foldl_rightParen (derived : phrase.At 0) (contexts : List Context)
    (program : List Stmt) (errors : List Error) (ends : ending.kind = .symbol .rightParen) :
    (phrase.tokens ++ [ending]).foldl State.step
        ⟨.operand [] .condition, contexts, program, errors⟩ =
      ⟨.statement, .thenBranch phrase.expr :: contexts, program,
        blame phrase.badTargets errors⟩ := by
  obtain ⟨mode, reached⟩ :=
    derived.foldl_ending .condition contexts program errors (.inr ends)
  rw [reached]
  simp [State.readEnd, ends]

end

end Phrase

/-! ### Finished statements -/

theorem settle_false_mode (state : State) (statement : Stmt) (contexts : List Context) :
    (state.settle false statement contexts).mode = .declaration := by
  fun_induction State.settle state false statement contexts <;> simp_all

/-- A parse that takes the statement it has finished for complete. -/
def settled (state : State) : State :=
  match state.mode with
  | .closed statement => state.settle false statement state.contexts
  | _ => state

/-- Any token but an `else` completes a finished statement. -/
theorem step_settled (state : State) {token : Token} (kind : token.kind ≠ .keyword .else_) :
    state.step token = (settled state).step token := by
  unfold settled
  split
  next statement closed =>
    have declares := settle_false_mode state statement state.contexts
    simp [State.step, closed, declares, State.readAfter, kind]
  · rfl

/-- At the end of the text, a finished statement is complete. -/
theorem atEnd_eq_settled {state : State} (mark : Token)
    (declares : (settled state).mode = .declaration) : state.atEnd mark = settled state := by
  unfold State.atEnd settled at *
  split at declares
  next closed => simp only [closed]
  next => simp only [declares]

/-- Where declarations stand in a row: in the program itself or in an open block. -/
inductive Place where
  | program
  | block (outside : List Context) (program : List Stmt)

/-- A parse that has read some declarations there, latest first. -/
def Place.state (done : List Stmt) (errors : List Error) : Place → State
  | program => ⟨.declaration, [], done, errors⟩
  | block outside before => ⟨.declaration, .block done :: outside, before, errors⟩

/-- What a parse is reading when it is to read a clause. -/
def Nonterminal.mode : Nonterminal → Mode
  | declaration => .declaration
  | statement => .statement

namespace Clause

variable {nonterminal : Nonterminal} {clause : Clause}

/-! ### Declarations and statements -/

theorem readStatement_mode (mode other : Mode) (contexts : List Context) (program : List Stmt)
    (errors : List Error) (token : Token) :
    State.readStatement ⟨mode, contexts, program, errors⟩ token =
      State.readStatement ⟨other, contexts, program, errors⟩ token := by
  unfold State.readStatement State.readOperand
  split
  · rfl
  · rfl
  · rfl
  · split
    · rfl
    · rfl
    · rfl
    · split <;> rfl

/-- A statement may stand wherever a declaration may. -/
theorem step_statement {token : Token} (contexts : List Context) (program : List Stmt)
    (errors : List Error) (kind : Form.ofKind token.kind ≠ .declares)
    (noFollow : ¬ Follows token.kind) :
    State.step ⟨.declaration, contexts, program, errors⟩ token =
      State.step ⟨.statement, contexts, program, errors⟩ token := by
  simp only [State.step]
  unfold State.readDeclaration
  split
  next word => exact absurd (by rw [word]; rfl) kind
  next brace _ => exact absurd (.inr brace) noFollow
  · exact readStatement_mode _ _ contexts program errors token

/-- An expression begins the statement that it is. -/
theorem step_expression {token : Token} (contexts : List Context) (program : List Stmt)
    (errors : List Error) (kind : Form.ofKind token.kind = .evaluates) :
    State.step ⟨.statement, contexts, program, errors⟩ token =
      State.step ⟨.operand [] .expression, contexts, program, errors⟩ token := by
  simp only [State.step]
  unfold State.readStatement
  split
  next word => simp [word, Form.ofKind] at kind
  next word => simp [word, Form.ofKind] at kind
  next brace => simp [brace, Form.ofKind] at kind
  · unfold State.readOperand
    split
    · rfl
    · rfl
    · rfl
    · split <;> rfl

/-- What is in hand when a clause has been read inside of `contexts`: the statement and
the contexts can be told from those with its tree in hand by nothing that can follow it. -/
structure Read (clause : Clause) (contexts : List Context) (statement : Stmt)
    (contextsNow : List Context) : Prop where
  settle_eq : ∀ state : State,
    state.settle false statement contextsNow = state.settle false clause.stmt contexts
  settle_else : clause.isOpen = false → ∀ state : State,
    state.settle true statement contextsNow = state.settle true clause.stmt contexts

theorem Read.refl (clause : Clause) (contexts : List Context) :
    clause.Read contexts clause.stmt contexts :=
  ⟨fun _ => rfl, fun _ _ => rfl⟩

def Readable (nonterminal : Nonterminal) (clause : Clause) : Prop :=
  ∀ contexts program errors, ∃ statement contextsNow,
    clause.tokens.foldl State.step ⟨nonterminal.mode, contexts, program, errors⟩ =
      ⟨.closed statement, contextsNow, program, blame clause.badTargets errors⟩ ∧
    clause.Read contexts statement contextsNow

theorem foldl_all {clauses : List Clause}
    (derived : ∀ clause ∈ clauses, clause.From .declaration)
    (each : ∀ clause ∈ clauses, clause.Readable .declaration) (place : Place)
    (done : List Stmt) (errors : List Error) (state : State)
    (here : settled state = place.state done errors) :
    settled ((allTokens clauses).foldl State.step state) =
      place.state ((allStmts clauses).reverse ++ done) (blame (allBadTargets clauses) errors) := by
  induction clauses generalizing done errors state with
  | nil => exact here
  | cons clause clauses ih =>
    obtain ⟨first, more, same, _, noFollow⟩ := (derived clause List.mem_cons_self).exists_head
    obtain ⟨statement, contextsNow, reached, read⟩ := each clause List.mem_cons_self
      (place.state done errors).contexts (place.state done errors).program errors
    -- The first token of the clause settles what stands in front of it.
    have begun : clause.tokens.foldl State.step state =
        clause.tokens.foldl State.step (place.state done errors) := by
      rw [same, List.foldl_cons, List.foldl_cons, ← here,
        step_settled state (fun kind => noFollow (.inl kind))]
    have fields : place.state done errors = ⟨Nonterminal.declaration.mode,
        (place.state done errors).contexts, (place.state done errors).program, errors⟩ := by
      cases place <;> rfl
    rw [allTokens, List.foldl_append, begun, fields, reached, allBadTargets, blame_append,
      allStmts, List.reverse_cons, List.append_assoc]
    apply ih (fun later member => derived later (.tail clause member))
      (fun later member => each later (.tail clause member))
    simp only [settled]
    rw [read.settle_eq]
    cases place <;> rfl

private theorem readable_var {keyword name semicolon : Token}
    (word : keyword.kind = .keyword .var_) (named : name.kind = .identifier)
    (ends : semicolon.kind = .symbol .semicolon) :
    Readable .declaration (.var keyword name semicolon) := by
  intro contexts program errors
  refine ⟨_, contexts, ?_, Read.refl _ contexts⟩
  simp [tokens, stmt, badTargets, Nonterminal.mode, State.step, State.readDeclaration, word,
    named, ends]

private theorem readable_varInit {keyword name equals semicolon : Token} {value : Phrase}
    (word : keyword.kind = .keyword .var_) (named : name.kind = .identifier)
    (sets : equals.kind = .symbol .assign) (derived : value.At 0)
    (ends : semicolon.kind = .symbol .semicolon) :
    Readable .declaration (.varInit keyword name equals value semicolon) := by
  intro contexts program errors
  refine ⟨_, contexts, ?_, Read.refl _ contexts⟩
  have begun : [keyword, name, equals].foldl State.step
      ⟨.declaration, contexts, program, errors⟩ =
      ⟨.operand [] (.initializer name), contexts, program, errors⟩ := by
    simp [State.step, State.readDeclaration, word, named, sets]
  have finished := derived.foldl_semicolon (.initializer name) contexts program errors ends rfl
  have parts : (Clause.varInit keyword name equals value semicolon).tokens =
      [keyword, name, equals] ++ (value.tokens ++ [semicolon]) := rfl
  rw [parts, List.foldl_append, Nonterminal.mode, begun, finished]
  rfl

private theorem readable_statement (derived : clause.From .statement)
    (read : clause.Readable .statement) : clause.Readable .declaration := by
  intro contexts program errors
  -- The first token begins the statement in the same way in both modes.
  obtain ⟨first, more, same, kind, noFollow⟩ := derived.exists_head
  have noVar : clause.form ≠ .declares := by cases derived <;> simp [form]
  have begun := step_statement contexts program errors (kind ▸ noVar) noFollow
  obtain ⟨statement, contextsNow, reached, read⟩ := read contexts program errors
  refine ⟨statement, contextsNow, ?_, read⟩
  rw [same, List.foldl_cons] at reached ⊢
  rw [Nonterminal.mode, begun]
  exact reached

private theorem readable_expression {value : Phrase} {semicolon : Token} (derived : value.At 0)
    (ends : semicolon.kind = .symbol .semicolon) :
    Readable .statement (.expression value semicolon) := by
  intro contexts program errors
  refine ⟨_, contexts, ?_, Read.refl _ contexts⟩
  obtain ⟨first, more, same, kind, _⟩ := derived.exists_head
  have finished := derived.foldl_semicolon .expression contexts program errors ends rfl
  rw [same, List.cons_append, List.foldl_cons, ← step_expression contexts program errors kind]
    at finished
  rw [tokens, same, List.cons_append, List.foldl_cons, Nonterminal.mode, finished]
  rfl

private theorem readable_print {keyword semicolon : Token} {value : Phrase}
    (word : keyword.kind = .keyword .print_) (derived : value.At 0)
    (ends : semicolon.kind = .symbol .semicolon) :
    Readable .statement (.print keyword value semicolon) := by
  intro contexts program errors
  refine ⟨_, contexts, ?_, Read.refl _ contexts⟩
  have begun : State.step ⟨.statement, contexts, program, errors⟩ keyword =
      ⟨.operand [] (.print keyword), contexts, program, errors⟩ := by
    simp [State.step, State.readStatement, word]
  have finished := derived.foldl_semicolon (.print keyword) contexts program errors ends rfl
  rw [tokens, List.cons_append, List.foldl_cons, Nonterminal.mode, begun, finished]
  rfl

private theorem readable_block {opening closing : Token} {body : List Clause}
    (opens : opening.kind = .symbol .leftBrace)
    (derived : ∀ clause ∈ body, clause.From .declaration)
    (closes : closing.kind = .symbol .rightBrace)
    (each : ∀ clause ∈ body, clause.Readable .declaration) :
    Readable .statement (.block opening body closing) := by
  intro contexts program errors
  refine ⟨_, contexts, ?_, Read.refl _ contexts⟩
  have begun : State.step ⟨.statement, contexts, program, errors⟩ opening =
      (Place.block contexts program).state [] errors := by
    simp [State.step, State.readStatement, opens, Place.state]
  -- The block is a place of its own, and its brace settles the last of its statements.
  have inside := foldl_all derived each (.block contexts program) [] errors
    ((Place.block contexts program).state [] errors) rfl
  have noElse : closing.kind ≠ .keyword .else_ := by simp [closes]
  simp only [Nonterminal.mode, tokens, List.foldl_append, List.foldl_cons, List.foldl_nil, begun]
  rw [step_settled _ noElse, inside]
  simp [Place.state, State.step, State.readDeclaration, closes, stmt, badTargets]

/-- What is in hand after the condition of an `if`. -/
private theorem foldl_condition {keyword opening closing : Token} {condition : Phrase}
    (word : keyword.kind = .keyword .if_) (opens : opening.kind = .symbol .leftParen)
    (tested : condition.At 0) (closes : closing.kind = .symbol .rightParen)
    (contexts : List Context) (program : List Stmt) (errors : List Error) :
    (keyword :: opening :: (condition.tokens ++ [closing])).foldl State.step
        ⟨.statement, contexts, program, errors⟩ =
      ⟨.statement, .thenBranch condition.expr :: contexts, program,
        blame condition.badTargets errors⟩ := by
  have begun : State.step (State.step ⟨.statement, contexts, program, errors⟩ keyword) opening =
      ⟨.operand [] .condition, contexts, program, errors⟩ := by
    simp [State.step, State.readStatement, word, opens]
  rw [List.foldl_cons, List.foldl_cons, begun]
  exact tested.foldl_rightParen contexts program errors closes

private theorem readable_ifThen {keyword opening closing : Token} {condition : Phrase}
    {consequent : Clause} (word : keyword.kind = .keyword .if_)
    (opens : opening.kind = .symbol .leftParen) (tested : condition.At 0)
    (closes : closing.kind = .symbol .rightParen) (first : consequent.Readable .statement) :
    Readable .statement (.ifThen keyword opening condition closing consequent) := by
  intro contexts program errors
  have conditionRead := foldl_condition word opens tested closes contexts program errors
  obtain ⟨statement, contextsNow, reached, read⟩ :=
    first (.thenBranch condition.expr :: contexts) program (blame condition.badTargets errors)
  refine ⟨statement, contextsNow, ?_, ?_⟩
  · have parts : (Clause.ifThen keyword opening condition closing consequent).tokens =
        keyword :: opening :: (condition.tokens ++ [closing]) ++ consequent.tokens := by
      simp [tokens]
    rw [parts, List.foldl_append, Nonterminal.mode, conditionRead, badTargets, blame_append]
    exact reached
  · exact ⟨fun state => read.settle_eq state, by simp [isOpen]⟩

private theorem readable_ifElse {keyword opening closing otherwise : Token} {condition : Phrase}
    {consequent alternative : Clause} (word : keyword.kind = .keyword .if_)
    (opens : opening.kind = .symbol .leftParen) (tested : condition.At 0)
    (closes : closing.kind = .symbol .rightParen) (first : consequent.Readable .statement)
    (nearest : consequent.isOpen = false) (elseWord : otherwise.kind = .keyword .else_)
    (second : alternative.Readable .statement) :
    Readable .statement
      (.ifElse keyword opening condition closing consequent otherwise alternative) := by
  intro contexts program errors
  have conditionRead := foldl_condition word opens tested closes contexts program errors
  obtain ⟨statement, contextsThen, reached, read⟩ :=
    first (.thenBranch condition.expr :: contexts) program (blame condition.badTargets errors)
  obtain ⟨statementElse, contextsNow, reachedElse, readElse⟩ :=
    second (.elseBranch condition.expr consequent.stmt :: contexts) program
      (blame consequent.badTargets (blame condition.badTargets errors))
  refine ⟨statementElse, contextsNow, ?_, ?_⟩
  · -- The `else` goes to this `if`, since the branch has none that is open.
    have taken : State.step ⟨.closed statement, contextsThen, program,
        blame consequent.badTargets (blame condition.badTargets errors)⟩ otherwise =
        ⟨.statement, .elseBranch condition.expr consequent.stmt :: contexts, program,
          blame consequent.badTargets (blame condition.badTargets errors)⟩ := by
      simp [State.step, State.readAfter, elseWord, read.settle_else nearest, State.settle]
    have parts : (Clause.ifElse keyword opening condition closing consequent otherwise
        alternative).tokens = keyword :: opening :: (condition.tokens ++ [closing]) ++
          consequent.tokens ++ otherwise :: alternative.tokens := by
      simp [tokens]
    rw [parts, List.foldl_append, List.foldl_append, Nonterminal.mode, conditionRead, badTargets,
      blame_append, blame_append]
    rw [Nonterminal.mode] at reached reachedElse
    rw [reached, List.foldl_cons, taken, reachedElse]
  · exact ⟨fun state => readElse.settle_eq state,
      fun closed state => readElse.settle_else closed state⟩

/-- The tokens of a clause bring a parse from before it to after it. -/
theorem From.foldl_step (derived : clause.From nonterminal) : clause.Readable nonterminal := by
  induction derived with
  | var word named ends => exact readable_var word named ends
  | varInit word named sets value ends => exact readable_varInit word named sets value ends
  | statement derived ih => exact readable_statement derived ih
  | expression value ends => exact readable_expression value ends
  | print word value ends => exact readable_print word value ends
  | block opens body closes each => exact readable_block opens body closes each
  | ifThen word opens tested closes _ first => exact readable_ifThen word opens tested closes first
  | ifElse word opens tested closes _ nearest elseWord _ first second =>
    exact readable_ifElse word opens tested closes first nearest elseWord second

end Clause

/-! ### Programs -/

/-- A program that can be derived is read as the tree that its derivation stands for, and
the only errors are its bad assignment targets. -/
theorem Derives.ofTokens_eq {clauses : List Clause} {tokens : List Token}
    (derived : Derives clauses (tokens.takeWhile (fun token => !token.isEnd))) :
    ofTokens tokens = ⟨Clause.allStmts clauses,
      (Clause.allBadTargets clauses).map (Error.mk .badTarget)⟩ := by
  obtain ⟨each, spelled⟩ := derived
  have read := Clause.foldl_all each (fun clause member => (each clause member).foldl_step)
    .program [] [] State.initial rfl
  rw [spelled] at read
  rw [ofTokens]
  generalize (tokens.takeWhile (fun token => !token.isEnd)).foldl State.step State.initial = state
    at read ⊢
  -- Nothing is open any more, so the mark of the end only settles the last statement.
  have last := atEnd_eq_settled (endMark tokens) (by rw [read]; rfl)
  rw [State.finish, last, read]
  simp [Place.state, blame]

end BlockScript.Grammar
