import BlockScript.Parse.Program

/-!
# What may happen when a token is read

## Main result

`State.reads_step`: the ways in which one token changes a parse, each with what has to hold for
it.

What holds of all parses is kept by each of these ways, and is shown by cases on them. So a proof
does not depend on the form in which the parse chooses between them.
-/

namespace BlockScript.Parse

section

variable (state : State) (token : Token)

/-- What may follow when an operand should begin. -/
inductive ReadsOperand (frames : List Frame) (purpose : Purpose) : State → Prop where
  | unary (sign : token.kind = .symbol .bang ∨ token.kind = .symbol .minus) :
      ReadsOperand frames purpose { state with mode := .operand (.unary token :: frames) purpose }
  | group (opens : token.kind = .symbol .leftParen) :
      ReadsOperand frames purpose { state with mode := .operand (.group :: frames) purpose }
  | atom {operand : Expr} (known : atom? token = some operand) :
      ReadsOperand frames purpose { state with mode := .operator frames purpose operand }
  | misfit (unknown : atom? token = none) :
      ReadsOperand frames purpose (state.fail .noExpression token)

/-- What may follow behind a complete expression. -/
inductive ReadsEnd : State → Prop where
  | statement (finished : Stmt) (ends : token.kind = .symbol .semicolon) :
      ReadsEnd { state with mode := .closed finished }
  | condition (condition : Expr) (closes : token.kind = .symbol .rightParen) :
      ReadsEnd
        { state with mode := .statement, contexts := .thenBranch condition :: state.contexts }
  | misfit (fault : Fault) (fatal : fault.isFatal = true) : ReadsEnd (state.fail fault token)

/-- What may follow behind an operand. -/
inductive ReadsOperator (frames : List Frame) (purpose : Purpose) (operand : Expr) :
    State → Prop where
  | binary {precedence : Nat} (binds : precedence? token.kind = some precedence) :
      ReadsOperator frames purpose operand
        { state with mode := .operand (.binary (reduce precedence frames operand).2 token precedence
          :: (reduce precedence frames operand).1) purpose }
  | assign (sets : token.kind = .symbol .assign) :
      ReadsOperator frames purpose operand
        { state with mode := .operand (.assign (reduce 0 frames operand).2 token ::
          (reduce 0 frames operand).1) purpose }
  | groupEnd {outer : List Frame}
      (inside : (close state.errors frames operand).outside = some outer)
      (closes : token.kind = .symbol .rightParen) :
      ReadsOperator frames purpose operand
        { state with
          mode := .operator outer purpose (.group (close state.errors frames operand).operand)
          errors := (close state.errors frames operand).badTargets }
  | unclosed {outer : List Frame}
      (inside : (close state.errors frames operand).outside = some outer) :
      ReadsOperator frames purpose operand
        ({ state with errors := (close state.errors frames operand).badTargets }.fail
          (.missing .parenAfterExpression) token)
  | complete {next : State} (outermost : (close state.errors frames operand).outside = none)
      (reads : ReadsEnd
        { state with errors := (close state.errors frames operand).badTargets } token next) :
      ReadsOperator frames purpose operand next

inductive ReadsStatement : State → Prop where
  | branches (word : token.kind = .keyword .if_) :
      ReadsStatement { state with mode := .conditionParen }
  | prints (word : token.kind = .keyword .print_) :
      ReadsStatement { state with mode := .operand [] (.print token) }
  | block (opens : token.kind = .symbol .leftBrace) :
      ReadsStatement { state with mode := .declaration, contexts := .block [] :: state.contexts }
  | expression {next : State} (reads : ReadsOperand state token [] .expression next) :
      ReadsStatement next

inductive ReadsDeclaration : State → Prop where
  | declares (word : token.kind = .keyword .var_) :
      ReadsDeclaration { state with mode := .variableName }
  | blockEnd {body : List Stmt} {outer : List Context} (closes : token.kind = .symbol .rightBrace)
      (inside : state.contexts = .block body :: outer) :
      ReadsDeclaration { state with mode := .closed (.block body.reverse), contexts := outer }
  | statement {next : State} (reads : ReadsStatement state token next) : ReadsDeclaration next

/-- What may follow while a spoiled declaration is skipped. -/
inductive ReadsRecovering : State → Prop where
  | semicolon (ends : token.kind = .symbol .semicolon) :
      ReadsRecovering { state with mode := .declaration }
  | resumes {word : Keyword} {next : State} (isWord : token.kind = .keyword word)
      (starts : word.startsDeclaration = true) (reads : ReadsDeclaration state token next) :
      ReadsRecovering next
  | skips (noEnd : token.kind ≠ .symbol .semicolon) : ReadsRecovering state

inductive Reads : State → Prop where
  | declaration {next : State} (mode : state.mode = .declaration)
      (reads : ReadsDeclaration state token next) : Reads next
  | statement {next : State} (mode : state.mode = .statement)
      (reads : ReadsStatement state token next) : Reads next
  | otherwise {finished : Stmt} (mode : state.mode = .closed finished)
      (taken : (state.settle (token.kind = .keyword .else_) finished state.contexts).mode =
        .statement) :
      Reads (state.settle (token.kind = .keyword .else_) finished state.contexts)
  | after {finished : Stmt} {next : State} (mode : state.mode = .closed finished)
      (reads : ReadsDeclaration
        (state.settle (token.kind = .keyword .else_) finished state.contexts) token next) :
      Reads next
  | variableName (mode : state.mode = .variableName) (named : token.kind = .identifier) :
      Reads { state with mode := .variableTail token }
  | initializer {name : Token} (mode : state.mode = .variableTail name)
      (sets : token.kind = .symbol .assign) :
      Reads { state with mode := .operand [] (.initializer name) }
  | variableEnd {name : Token} (mode : state.mode = .variableTail name)
      (ends : token.kind = .symbol .semicolon) :
      Reads { state with mode := .closed (.var name none) }
  | conditionParen (mode : state.mode = .conditionParen) (opens : token.kind = .symbol .leftParen) :
      Reads { state with mode := .operand [] .condition }
  | misfit (mode : state.mode = .variableName ∨ (∃ name, state.mode = .variableTail name) ∨
      state.mode = .conditionParen) (fault : Fault) (fatal : fault.isFatal = true) :
      Reads (state.fail fault token)
  | operand {frames : List Frame} {purpose : Purpose} {next : State}
      (mode : state.mode = .operand frames purpose)
      (reads : ReadsOperand state token frames purpose next) : Reads next
  | operator {frames : List Frame} {purpose : Purpose} {operand : Expr} {next : State}
      (mode : state.mode = .operator frames purpose operand)
      (reads : ReadsOperator state token frames purpose operand next) : Reads next
  | recovering {next : State} (mode : state.mode = .recovering)
      (reads : ReadsRecovering state token next) : Reads next

end

namespace State

variable (state : State) (token : Token)

theorem reads_readOperand (frames : List Frame) (purpose : Purpose) :
    ReadsOperand state token frames purpose (state.readOperand frames purpose token) := by
  unfold readOperand
  split
  next isBang => exact .unary (.inl isBang)
  next isMinus => exact .unary (.inr isMinus)
  next opens => exact .group opens
  next =>
    split
    next known => exact .atom known
    next unknown => exact .misfit unknown

theorem reads_readEnd (purpose : Purpose) (value : Expr) :
    ReadsEnd state token (state.readEnd purpose value token) := by
  cases purpose with
  | expression | print | initializer =>
    simp only [readEnd]
    split
    next ends => exact .statement _ ends
    next => exact .misfit _ rfl
  | condition =>
    simp only [readEnd]
    split
    next closes => exact .condition value closes
    next => exact .misfit _ rfl

theorem reads_readOperator (frames : List Frame) (purpose : Purpose) (operand : Expr) :
    ReadsOperator state token frames purpose operand
      (state.readOperator frames purpose operand token) := by
  unfold readOperator
  split
  next binds => exact .binary binds
  next =>
    split
    next sets => exact .assign sets
    next =>
      dsimp only
      split
      next inside =>
        split
        next closes => exact .groupEnd inside closes
        next => exact .unclosed inside
      next outermost => exact .complete outermost (reads_readEnd _ token purpose _)

theorem reads_readStatement : ReadsStatement state token (state.readStatement token) := by
  unfold readStatement
  split
  next word => exact .branches word
  next word => exact .prints word
  next opens => exact .block opens
  next => exact .expression (state.reads_readOperand token [] .expression)

theorem reads_readDeclaration : ReadsDeclaration state token (state.readDeclaration token) := by
  unfold readDeclaration
  split
  next word => exact .declares word
  next closes inside => exact .blockEnd closes inside
  next => exact .statement (state.reads_readStatement token)

theorem reads_readRecovering : ReadsRecovering state token (state.readRecovering token) := by
  unfold readRecovering
  split
  next ends => exact .semicolon ends
  next word isWord =>
    split
    next starts => exact .resumes isWord starts (state.reads_readDeclaration token)
    next => exact .skips (by simp [isWord])
  next noEnd _ => exact .skips noEnd

/-- Every step is one of these. -/
theorem reads_step : Reads state token (state.step token) := by
  unfold step
  split
  next mode => exact .declaration mode (state.reads_readDeclaration token)
  next mode => exact .statement mode (state.reads_readStatement token)
  next finished mode =>
    unfold readAfter
    dsimp only
    split
    next taken => exact .otherwise mode taken
    next => exact .after mode (reads_readDeclaration _ token)
  next mode =>
    split
    next named => exact .variableName mode named
    next => exact .misfit (.inl mode) _ rfl
  next name mode =>
    split
    next sets => exact .initializer mode sets
    next ends => exact .variableEnd mode ends
    next => exact .misfit (.inr (.inl ⟨name, mode⟩)) _ rfl
  next mode =>
    split
    next opens => exact .conditionParen mode opens
    next => exact .misfit (.inr (.inr mode)) _ rfl
  next mode => exact .operand mode (state.reads_readOperand token _ _)
  next mode => exact .operator mode (state.reads_readOperator token _ _ _)
  next mode => exact .recovering mode (state.reads_readRecovering token)

end State
end BlockScript.Parse
