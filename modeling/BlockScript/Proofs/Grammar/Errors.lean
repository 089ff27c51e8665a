import BlockScript.Proofs.Grammar.Closing
import BlockScript.Proofs.Grammar.Moves

/-!
# Errors and the tokens that they are blamed on

## Main results

`State.adds_step`: reading a token brings to light bad assignment targets, and records at most
one error more, which is blamed on the token.
`State.adds_atEnd`: so does the end of the text.
`State.suffix_step`, `State.suffix_atEnd`, `State.suffix_foldl`: errors are never taken back.

## Proof strategy

A token is read in one of a few ways, chosen by what is in hand. Each of them leaves the
errors alone, records one, or closes an expression, which records those of its targets.
-/

namespace BlockScript.Parse

/-- What may become of the errors, the latest first, when a token is read. -/
inductive Adds (token : Token) (errors : List Error) : List Error → Prop where
  | targets (more : List Error) (bad : ∀ error ∈ more, error.fault = .badTarget) :
      Adds token errors (more ++ errors)
  | blamed (more : List Error) (bad : ∀ error ∈ more, error.fault = .badTarget) (fault : Fault) :
      Adds token errors (⟨fault, token⟩ :: (more ++ errors))

theorem Adds.refl (token : Token) (errors : List Error) : Adds token errors errors :=
  .targets [] (by simp)

theorem Adds.suffix {token : Token} {errors after : List Error} (adds : Adds token errors after) :
    errors <:+ after := by
  cases adds with
  | targets more => exact List.suffix_append _ _
  | blamed more => exact (List.suffix_append _ _).trans (List.suffix_cons _ _)

/-- To put a statement where it belongs is no reason to complain. -/
theorem State.settle_errors (state : State) (elseFollows : Bool) (statement : Stmt)
    (contexts : List Context) :
    (state.settle elseFollows statement contexts).errors = state.errors := by
  fun_induction settle state elseFollows statement contexts <;> simp_all

section

variable {state next : State} {token : Token}

theorem adds_fail (state : State) (fault : Fault) (token : Token) :
    Adds token state.errors (state.fail fault token).errors :=
  .blamed [] (by simp) fault

theorem adds_operand {frames : List Frame} {purpose : Purpose}
    (reads : ReadsOperand state token frames purpose next) :
    Adds token state.errors next.errors := by
  cases reads with
  | unary | group | atom => exact .refl token state.errors
  | misfit => exact adds_fail state _ token

/-- When an expression ends, the errors of its targets are known. -/
theorem adds_operator {frames : List Frame} {purpose : Purpose} {operand : Expr}
    (reads : ReadsOperator state token frames purpose operand next) :
    Adds token state.errors next.errors := by
  obtain ⟨more, bad, closed⟩ := close_badTargets state.errors frames operand
  cases reads with
  | binary | assign => exact .refl token state.errors
  | groupEnd =>
    rw [closed]
    exact .targets more bad
  | unclosed =>
    simp only [State.fail, State.record, closed]
    exact .blamed more bad _
  | complete _ reads =>
    rw [closed] at reads
    cases reads with
    | statement | condition => exact .targets more bad
    | misfit fault => exact .blamed more bad fault

theorem adds_statement (reads : ReadsStatement state token next) :
    Adds token state.errors next.errors := by
  cases reads with
  | branches | prints | block => exact .refl token state.errors
  | expression reads => exact adds_operand reads

theorem adds_declaration (reads : ReadsDeclaration state token next) :
    Adds token state.errors next.errors := by
  cases reads with
  | declares | blockEnd => exact .refl token state.errors
  | statement reads => exact adds_statement reads

theorem adds_reads (reads : Reads state token next) : Adds token state.errors next.errors := by
  cases reads with
  | declaration _ reads => exact adds_declaration reads
  | statement _ reads => exact adds_statement reads
  | otherwise =>
    rw [State.settle_errors]
    exact .refl token state.errors
  | after _ reads =>
    have adds := adds_declaration reads
    rwa [State.settle_errors] at adds
  | variableName | initializer | variableEnd | conditionParen => exact .refl token state.errors
  | misfit => exact adds_fail state _ token
  | operand _ reads => exact adds_operand reads
  | operator _ reads => exact adds_operator reads
  | recovering _ reads =>
    cases reads with
    | semicolon | skips => exact .refl token state.errors
    | resumes _ _ reads => exact adds_declaration reads

end

namespace State

theorem adds_step (state : State) (token : Token) :
    Adds token state.errors (state.step token).errors :=
  adds_reads (state.reads_step token)

/-- The end of the text is read like a token if it comes too early. -/
theorem adds_atEnd (state : State) (mark : Token) :
    Adds mark state.errors (state.atEnd mark).errors := by
  unfold atEnd
  split
  · exact .refl _ _
  · exact .refl _ _
  next statement _ =>
    rw [settle_errors]
    exact .refl _ _
  · exact adds_step state mark

theorem suffix_step (state : State) (token : Token) : state.errors <:+ (state.step token).errors :=
  (adds_step state token).suffix

theorem suffix_atEnd (state : State) (mark : Token) :
    state.errors <:+ (state.atEnd mark).errors :=
  (adds_atEnd state mark).suffix

theorem suffix_foldl (tokens : List Token) (state : State) :
    state.errors <:+ (tokens.foldl step state).errors := by
  induction tokens generalizing state with
  | nil => exact List.suffix_rfl
  | cons token tokens ih => exact (suffix_step state token).trans (ih (state.step token))

end State
end BlockScript.Parse
