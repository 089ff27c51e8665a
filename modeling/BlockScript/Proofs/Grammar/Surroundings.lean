import BlockScript.Proofs.Grammar.Completeness

/-!
# Reading does not look at what came before

## Main result

`step_within`, `foldl_within`: tokens are read behind other declarations as they are read at the
beginning of a text, whether these declarations are a program or stand in an open block. Only a
brace that closes the block is read in another way.

## Proof strategy

What a text of its own has in hand can be put into a place: its finished statements go behind
the declarations of the place, its contexts inside of those of the place, its errors behind the
errors so far. Each way of reading a token commutes with that.
-/

namespace BlockScript.Grammar

open Parse

/-- What a parse has in hand when the text that it reads begins behind declarations of a
place. -/
def Place.within (done : List Stmt) (errors : List Error) (state : State) : Place → State
  | program => ⟨state.mode, state.contexts, state.program ++ done, state.errors ++ errors⟩
  | block outside before =>
    ⟨state.mode, state.contexts ++ .block (state.program ++ done) :: outside, before,
      state.errors ++ errors⟩

section

variable (place : Place) (done : List Stmt) (errors : List Error)

theorem within_initial : place.within done errors State.initial = place.state done errors := by
  cases place <;> rfl

@[simp] theorem mode_within (state : State) :
    (place.within done errors state).mode = state.mode := by
  cases place <;> rfl

theorem enter_within (state : State) (mode : Mode) :
    { place.within done errors state with mode } =
      place.within done errors { state with mode } := by
  cases place <;> rfl

/-- Entering a context inside of a place is entering it there. -/
theorem open_within (state : State) (mode : Mode) (context : Context) :
    { place.within done errors state with
      mode, contexts := context :: (place.within done errors state).contexts } =
      place.within done errors { state with mode, contexts := context :: state.contexts } := by
  cases place <;> rfl

theorem fail_within (state : State) (fault : Fault) (token : Token) :
    (place.within done errors state).fail fault token =
      place.within done errors (state.fail fault token) := by
  cases place with
  | program => rfl
  | block outside before =>
    -- Giving up stops at the block of the place, if not before.
    have stops : (state.contexts ++ .block (state.program ++ done) :: outside).dropWhile
        (fun context => !context.isBlock) =
        state.contexts.dropWhile (fun context => !context.isBlock) ++
          .block (state.program ++ done) :: outside := by
      induction state.contexts with
      | nil => rfl
      | cons context contexts ih => cases context <;> simp_all [Context.isBlock]
    simp [State.fail, State.record, Place.within, stops]

theorem readOperand_within (state : State) (frames : List Frame) (purpose : Purpose)
    (token : Token) :
    (place.within done errors state).readOperand frames purpose token =
      place.within done errors (state.readOperand frames purpose token) := by
  unfold State.readOperand
  split
  · exact enter_within place done errors state _
  · exact enter_within place done errors state _
  · exact enter_within place done errors state _
  · split
    · exact enter_within place done errors state _
    · exact fail_within place done errors state _ token

theorem readEnd_within (state : State) (purpose : Purpose) (value : Expr) (token : Token) :
    (place.within done errors state).readEnd purpose value token =
      place.within done errors (state.readEnd purpose value token) := by
  have failed := fail_within place done errors state
  cases purpose with
  | expression | print | initializer =>
    simp only [State.readEnd]
    split
    · exact enter_within place done errors state _
    · exact failed _ token
  | condition =>
    simp only [State.readEnd]
    split
    · exact open_within place done errors state _ _
    · exact failed _ token

/-- Closing an expression adds its errors to whatever there is. -/
theorem close_append (earlier more : List Error) (frames : List Frame) (operand : Expr) :
    close (earlier ++ more) frames operand =
      ⟨(close earlier frames operand).outside, (close earlier frames operand).operand,
        (close earlier frames operand).badTargets ++ more⟩ := by
  fun_induction close earlier frames operand with
  | case1 _ _ _ _ ih | case2 _ _ _ _ _ _ ih | case3 _ _ _ _ _ ih => rw [close, ih]
  | case4 errors target equals rest operand noName ih =>
    rw [close, ← List.cons_append, ih]
    exact noName
  | case5 | case6 => rw [close]

theorem readOperator_within (state : State) (frames : List Frame) (purpose : Purpose)
    (operand : Expr) (token : Token) :
    (place.within done errors state).readOperator frames purpose operand token =
      place.within done errors (state.readOperator frames purpose operand token) := by
  have closed := close_append state.errors errors frames operand
  -- The errors of the closed expression are added inside of the place.
  have added (more : List Error) :
      { place.within done errors state with errors := more ++ errors } =
        place.within done errors { state with errors := more } := by
    cases place <;> rfl
  have errorsEq : (place.within done errors state).errors = state.errors ++ errors := by
    cases place <;> rfl
  unfold State.readOperator
  split
  · exact enter_within place done errors state _
  · split
    · exact enter_within place done errors state _
    · simp only [errorsEq, closed, added]
      split
      · split
        · cases place <;> rfl
        · exact fail_within place done errors _ _ token
      · exact readEnd_within place done errors _ purpose _ token

theorem settle_within (state : State) (elseFollows : Bool) (statement : Stmt)
    (contexts : List Context) :
    (place.within done errors state).settle elseFollows statement
        (place.within done errors { state with contexts }).contexts =
      place.within done errors (state.settle elseFollows statement contexts) := by
  fun_induction State.settle state elseFollows statement contexts with
  | case1 statement condition consequent rest ih =>
    cases place <;> exact ih
  | case2 statement condition rest follows =>
    cases place <;> simp [Place.within, State.settle, follows]
  | case3 statement condition rest noElse ih =>
    cases place <;> simpa [Place.within, State.settle, noElse] using ih
  | case4 | case5 => cases place <;> rfl

theorem readStatement_within (state : State) (token : Token) :
    (place.within done errors state).readStatement token =
      place.within done errors (state.readStatement token) := by
  unfold State.readStatement
  split
  · exact enter_within place done errors state _
  · exact enter_within place done errors state _
  · exact open_within place done errors state _ _
  · exact readOperand_within place done errors state [] .expression token

variable {place} {token : Token}
  (inside : place = .program ∨ token.kind ≠ .symbol .rightBrace)
include inside

theorem readDeclaration_within (state : State) :
    (place.within done errors state).readDeclaration token =
      place.within done errors (state.readDeclaration token) := by
  by_cases word : token.kind = .keyword .var_
  · simp only [State.readDeclaration, word]
    exact enter_within place done errors state _
  by_cases brace : token.kind = .symbol .rightBrace
  · -- A closing brace inside of a program closes a block of the text itself, or none.
    obtain rfl : place = .program := inside.resolve_right (not_not_intro brace)
    unfold State.readDeclaration
    rcases state with ⟨mode, _ | ⟨context, contexts⟩, program, earlier⟩
    · simpa [brace, Place.within] using
        readStatement_within .program done errors ⟨mode, [], program, earlier⟩ token
    · cases context with
      | block body => simp [brace, Place.within]
      | thenBranch condition =>
        simpa [brace, Place.within] using readStatement_within .program done errors
          ⟨mode, .thenBranch condition :: contexts, program, earlier⟩ token
      | elseBranch condition consequent =>
        simpa [brace, Place.within] using readStatement_within .program done errors
          ⟨mode, .elseBranch condition consequent :: contexts, program, earlier⟩ token
  · have plain (other : State) : other.readDeclaration token = other.readStatement token := by
      unfold State.readDeclaration
      split
      next kind => exact absurd kind word
      next kind _ => exact absurd kind brace
      · rfl
    rw [plain, plain]
    exact readStatement_within _ done errors state token

theorem readAfter_within (state : State) (statement : Stmt) :
    (place.within done errors state).readAfter statement token =
      place.within done errors (state.readAfter statement token) := by
  have settled := settle_within place done errors state (token.kind = .keyword .else_) statement
    state.contexts
  unfold State.readAfter
  simp only [settled, mode_within]
  split
  · rfl
  · exact readDeclaration_within done errors inside _

theorem readRecovering_within (state : State) :
    (place.within done errors state).readRecovering token =
      place.within done errors (state.readRecovering token) := by
  unfold State.readRecovering
  split
  · exact enter_within place done errors state _
  · split
    · exact readDeclaration_within done errors inside state
    · rfl
  · rfl

/-- A step does not look at what came before, unless it leaves the place. -/
theorem step_within (state : State) :
    (place.within done errors state).step token = place.within done errors (state.step token) := by
  have failed := fail_within place done errors state
  unfold State.step
  simp only [mode_within]
  cases state.mode with
  | declaration => exact readDeclaration_within done errors inside state
  | statement => exact readStatement_within place done errors state token
  | closed statement => exact readAfter_within done errors inside state statement
  | variableName | conditionParen =>
    dsimp only
    split
    · exact enter_within place done errors state _
    · exact failed _ token
  | variableTail name =>
    dsimp only
    split
    · exact enter_within place done errors state _
    · exact enter_within place done errors state _
    · exact failed _ token
  | operand frames purpose => exact readOperand_within place done errors state frames purpose token
  | operator frames purpose operand =>
    exact readOperator_within place done errors state frames purpose operand token
  | recovering => exact readRecovering_within done errors inside state

theorem atEnd_within (state : State) :
    (place.within done errors state).atEnd token =
      place.within done errors (state.atEnd token) := by
  have read := step_within done errors inside state
  unfold State.atEnd
  simp only [mode_within]
  cases state.mode with
  | closed statement => exact settle_within place done errors state false statement state.contexts
  | declaration | recovering => rfl
  | _ => exact read

end

/-- The declarations in front of a text stay in front of what is read of it, up to its end. -/
theorem finish_within (done : List Stmt) (errors : List Error) (state : State) (mark : Token) :
    (Place.program.within done errors state).finish mark =
      ⟨done.reverse ++ (state.finish mark).program,
        errors.reverse ++ (state.finish mark).errors⟩ := by
  rw [State.finish, atEnd_within done errors (.inl rfl)]
  simp [State.finish, Place.within]

theorem foldl_within {place : Place} {tokens : List Token}
    (inside : place = .program ∨ ∀ token ∈ tokens, token.kind ≠ .symbol .rightBrace)
    (done : List Stmt) (errors : List Error) (state : State) :
    tokens.foldl State.step (place.within done errors state) =
      place.within done errors (tokens.foldl State.step state) := by
  induction tokens generalizing state with
  | nil => rfl
  | cons token tokens ih =>
    have first := inside.imp_right fun open_ => open_ token List.mem_cons_self
    have rest := inside.imp_right fun open_ other member => open_ other (.tail token member)
    rw [List.foldl_cons, List.foldl_cons, step_within done errors first, ih rest]

end BlockScript.Grammar
