import BlockScript.Proofs.Grammar.Concatenation
import BlockScript.Proofs.Grammar.Moves
import BlockScript.Proofs.Grammar.Surroundings

/-!
# What recovery drops

## Main result

`recovery_drops`: a stretch of tokens that ends in its only semicolon and gives no statement by
itself gives none among other declarations, and takes nothing away from them.

## Proof strategy

1. Up to the semicolon no statement is finished and no block is open (`Unfinished`). If the
   semicolon finishes none either, the parse has given up, and begins anew right behind it
   (`Fruitless.foldl_initial`).
2. The declarations in front of the stretch are settled by its first token. Behind them it is
   read as it is by itself, and so are the declarations that follow it (`Fruitless.settled_foldl`).
-/

namespace BlockScript.Grammar

open Parse

/-! ### A stretch without a statement -/

/-- Whether nothing has been finished, and no block is open. -/
structure Unfinished (state : State) : Prop where
  noBlock : ∀ context ∈ state.contexts, context.isBlock = false
  empty : state.program = []
  unclosed : ∀ statement, state.mode ≠ .closed statement
  dropped : state.mode = .recovering → state.contexts = []

theorem dropWhile_contexts {contexts : List Context}
    (noBlock : ∀ context ∈ contexts, context.isBlock = false) :
    contexts.dropWhile (fun context => !context.isBlock) = [] := by
  rw [List.dropWhile_eq_nil_iff]
  intro context member
  simp [noBlock context member]

/-- What has been given up without an open block is given up as a whole. -/
theorem Unfinished.fail {state : State} (unfinished : Unfinished state) (fault : Fault)
    {token : Token} :
    state.fail fault token =
      ⟨if token.kind = .symbol .semicolon then .declaration else .recovering, [], [],
        ⟨fault, token⟩ :: state.errors⟩ := by
  simp [State.fail, State.record, dropWhile_contexts unfinished.noBlock, unfinished.empty]

section

variable {state next : State} {token : Token}

theorem Unfinished.enter (unfinished : Unfinished state) {mode : Mode} (errors : List Error)
    (reads : mode ≠ .recovering ∧ ∀ statement, mode ≠ .closed statement) :
    Unfinished ⟨mode, state.contexts, state.program, errors⟩ :=
  ⟨unfinished.noBlock, unfinished.empty, reads.2, fun recovers => absurd recovers reads.1⟩

theorem Unfinished.reported (unfinished : Unfinished state) (errors : List Error) :
    Unfinished { state with errors } :=
  ⟨unfinished.noBlock, unfinished.empty, unfinished.unclosed, unfinished.dropped⟩

theorem Unfinished.failed (unfinished : Unfinished state) (fault : Fault)
    (noEnd : token.kind ≠ .symbol .semicolon) : Unfinished (state.fail fault token) := by
  rw [unfinished.fail, if_neg noEnd]
  exact ⟨by simp, rfl, by simp, fun _ => rfl⟩

theorem Unfinished.operand {frames : List Frame} {purpose : Purpose}
    (unfinished : Unfinished state) (reads : ReadsOperand state token frames purpose next)
    (noEnd : token.kind ≠ .symbol .semicolon) : Unfinished next := by
  cases reads with
  | unary | group | atom => exact unfinished.enter _ (by simp)
  | misfit => exact unfinished.failed _ noEnd

theorem Unfinished.expressionEnd (unfinished : Unfinished state)
    (reads : ReadsEnd state token next) (noEnd : token.kind ≠ .symbol .semicolon) :
    Unfinished next := by
  cases reads with
  | statement _ ends => exact absurd ends noEnd
  | condition =>
    refine ⟨?_, unfinished.empty, by simp, by simp⟩
    rw [List.forall_mem_cons]
    exact ⟨rfl, unfinished.noBlock⟩
  | misfit => exact unfinished.failed _ noEnd

theorem Unfinished.operator {frames : List Frame} {purpose : Purpose} {operand : Expr}
    (unfinished : Unfinished state)
    (reads : ReadsOperator state token frames purpose operand next)
    (noEnd : token.kind ≠ .symbol .semicolon) : Unfinished next := by
  cases reads with
  | binary | assign | groupEnd => exact unfinished.enter _ (by simp)
  | unclosed => exact (unfinished.reported _).failed _ noEnd
  | complete _ reads => exact (unfinished.reported _).expressionEnd reads noEnd

variable (noEnd : token.kind ≠ .symbol .semicolon) (noBlock : token.kind ≠ .symbol .leftBrace)
include noEnd noBlock

theorem Unfinished.statement (unfinished : Unfinished state)
    (reads : ReadsStatement state token next) : Unfinished next := by
  cases reads with
  | branches | prints => exact unfinished.enter _ (by simp)
  | block opens => exact absurd opens noBlock
  | expression reads => exact unfinished.operand reads noEnd

theorem Unfinished.declaration (unfinished : Unfinished state)
    (reads : ReadsDeclaration state token next) : Unfinished next := by
  cases reads with
  | declares => exact unfinished.enter _ (by simp)
  | @blockEnd body outer _ inside =>
    -- There is no block that the brace could close.
    have outside := unfinished.noBlock (.block body) (by simp [inside])
    cases outside
  | statement reads => exact unfinished.statement noEnd noBlock reads

/-- Without a semicolon or an open block no statement is finished. -/
theorem Unfinished.reads (unfinished : Unfinished state) (reads : Reads state token next) :
    Unfinished next := by
  cases reads with
  | declaration _ reads => exact unfinished.declaration noEnd noBlock reads
  | statement _ reads => exact unfinished.statement noEnd noBlock reads
  | otherwise mode | after mode => exact absurd mode (unfinished.unclosed _)
  | variableName | initializer | conditionParen => exact unfinished.enter _ (by simp)
  | variableEnd _ ends => exact absurd ends noEnd
  | misfit => exact unfinished.failed _ noEnd
  | operand _ reads => exact unfinished.operand reads noEnd
  | operator _ reads => exact unfinished.operator reads noEnd
  | recovering _ reads =>
    cases reads with
    | semicolon ends => exact absurd ends noEnd
    | resumes _ _ reads => exact unfinished.declaration noEnd noBlock reads
    | skips => exact unfinished

end

theorem Unfinished.foldl {tokens : List Token} {state : State} (unfinished : Unfinished state)
    (single : ∀ token ∈ tokens,
      token.kind ≠ .symbol .semicolon ∧ token.kind ≠ .symbol .leftBrace) :
    Unfinished (tokens.foldl State.step state) := by
  induction tokens generalizing state with
  | nil => exact unfinished
  | cons token tokens ih =>
    obtain ⟨noEnd, noBlock⟩ := single token List.mem_cons_self
    have next := unfinished.reads noEnd noBlock (state.reads_step token)
    exact ih next fun other member => single other (.tail token member)

/-- Whether nothing has been finished, and nothing is being read. -/
structure Idle (state : State) : Prop where
  declares : state.mode = .declaration
  outermost : state.contexts = []
  empty : state.program = []

/-- Whether a statement has been finished in the contexts that there were. -/
def Finishes (state next : State) : Prop :=
  ∃ statement, next.mode = .closed statement ∧ next.contexts = state.contexts

section

variable {state next : State} {token : Token} (ends : token.kind = .symbol .semicolon)
include ends

theorem Unfinished.idle_fail (unfinished : Unfinished state) (fault : Fault) :
    Idle (state.fail fault token) := by
  rw [unfinished.fail, if_pos ends]
  exact ⟨rfl, rfl, rfl⟩

/-- No operand begins with a semicolon. -/
theorem Unfinished.idle_operand {frames : List Frame} {purpose : Purpose}
    (unfinished : Unfinished state) (reads : ReadsOperand state token frames purpose next) :
    Idle next := by
  cases reads with
  | unary sign => simp [ends] at sign
  | group opens => simp [ends] at opens
  | atom known => simp [atom?, ends] at known
  | misfit => exact unfinished.idle_fail ends _

/-- Nor does a statement. -/
theorem Unfinished.idle_statement (unfinished : Unfinished state)
    (reads : ReadsStatement state token next) : Idle next := by
  cases reads with
  | branches word | prints word => simp [ends] at word
  | block opens => simp [ends] at opens
  | expression reads => exact unfinished.idle_operand ends reads

theorem Unfinished.idle_declaration (unfinished : Unfinished state)
    (reads : ReadsDeclaration state token next) : Idle next := by
  cases reads with
  | declares word => simp [ends] at word
  | blockEnd closes => simp [ends] at closes
  | statement reads => exact unfinished.idle_statement ends reads

/-- A semicolon ends an expression and what it is read for, unless that is a condition. -/
theorem Unfinished.idle_operator {frames : List Frame} {purpose : Purpose} {operand : Expr}
    (unfinished : Unfinished state)
    (reads : ReadsOperator state token frames purpose operand next) :
    Idle next ∨ Finishes state next := by
  cases reads with
  | binary binds => simp [precedence?, ends] at binds
  | assign sets => simp [ends] at sets
  | groupEnd _ closes => simp [ends] at closes
  | unclosed => exact .inl ((unfinished.reported _).idle_fail ends _)
  | complete _ reads =>
    cases reads with
    | statement finished => exact .inr ⟨finished, rfl, rfl⟩
    | condition _ closes => simp [ends] at closes
    | misfit => exact .inl ((unfinished.reported _).idle_fail ends _)

/-- A semicolon ends a statement, or else everything is given up right behind it. -/
theorem Unfinished.semicolon (unfinished : Unfinished state) (reads : Reads state token next) :
    Idle next ∨ Finishes state next := by
  cases reads with
  | declaration _ reads => exact .inl (unfinished.idle_declaration ends reads)
  | statement _ reads => exact .inl (unfinished.idle_statement ends reads)
  | otherwise mode | after mode => exact absurd mode (unfinished.unclosed _)
  | variableName _ named => simp [ends] at named
  | initializer _ sets => simp [ends] at sets
  | variableEnd => exact .inr ⟨_, rfl, rfl⟩
  | conditionParen _ opens => simp [ends] at opens
  | misfit => exact .inl (unfinished.idle_fail ends _)
  | operand _ reads => exact .inl (unfinished.idle_operand ends reads)
  | operator _ reads => exact unfinished.idle_operator ends reads
  | recovering mode reads =>
    left
    cases reads with
    | semicolon => exact ⟨rfl, unfinished.dropped mode, unfinished.empty⟩
    | resumes isWord => simp [ends] at isWord
    | skips noEnd => exact absurd ends noEnd

end

/-- A finished statement without an open block around it belongs to the program. -/
theorem settle_program_ne_nil (state : State) (statement : Stmt) {contexts : List Context}
    (noBlock : ∀ context ∈ contexts, context.isBlock = false) :
    (state.settle false statement contexts).program ≠ [] := by
  induction contexts generalizing statement with
  | nil => simp [State.settle]
  | cons context contexts ih =>
    have rest := fun other member => noBlock other (.tail context member)
    cases context with
    | thenBranch condition => exact ih _ rest
    | elseBranch condition consequent => exact ih _ rest
    | block body => cases noBlock (.block body) List.mem_cons_self

/-- A list of tokens, without a mark of the end, that is a program. -/
structure IsProgram (tokens : List Token) : Prop where
  plain : ∀ token ∈ tokens, token.isEnd = false
  noErrors : (ofTokens tokens).errors = []

/-- A stretch of tokens in front of a semicolon, the first one, that gives no statement by
itself. -/
structure Fruitless (tokens : List Token) (semicolon : Token) : Prop where
  plain : ∀ token ∈ tokens, token.isEnd = false
  noSemicolon : ∀ token ∈ tokens, token.kind ≠ .symbol .semicolon
  noOpening : ∀ token ∈ tokens, token.kind ≠ .symbol .leftBrace
  noElse : ∀ token ∈ tokens.head?, token.kind ≠ .keyword .else_
  ends : semicolon.kind = .symbol .semicolon
  nothing : (ofTokens (tokens ++ [semicolon])).program = []

theorem text_of_plain {tokens : List Token} (plain : ∀ token ∈ tokens, token.isEnd = false) :
    Grammar.text tokens = tokens := by
  simpa [Grammar.text] using text_append plain []

theorem Fruitless.plainAll {spoiled : List Token} {semicolon : Token}
    (fruitless : Fruitless spoiled semicolon) :
    ∀ token ∈ spoiled ++ [semicolon], token.isEnd = false := by
  rw [List.forall_mem_append, List.forall_mem_singleton]
  exact ⟨fruitless.plain, by simp [Token.isEnd, fruitless.ends]⟩

/-- Behind the semicolon there are the errors of the stretch in hand, and nothing else. -/
theorem Fruitless.foldl_initial {spoiled : List Token} {semicolon : Token}
    (fruitless : Fruitless spoiled semicolon) :
    (spoiled ++ [semicolon]).foldl State.step State.initial =
      ⟨.declaration, [], [], (ofTokens (spoiled ++ [semicolon])).errors.reverse⟩ := by
  have initial : Unfinished State.initial := ⟨by simp [State.initial], rfl, nofun, nofun⟩
  have unfinished := initial.foldl fun token member =>
    ⟨fruitless.noSemicolon token member, fruitless.noOpening token member⟩
  have read := unfinished.semicolon fruitless.ends (State.reads_step _ semicolon)
  have nothing := fruitless.nothing
  rw [ofTokens, ← Grammar.text, text_of_plain fruitless.plainAll] at nothing ⊢
  simp only [List.foldl_append, List.foldl_cons, List.foldl_nil] at nothing ⊢
  generalize (spoiled.foldl State.step State.initial).step semicolon = last at read nothing ⊢
  rcases read with idle | ⟨statement, closed, inside⟩
  · obtain ⟨mode, contexts, program, errors⟩ := last
    obtain ⟨rfl, rfl, rfl⟩ := idle
    simp [State.finish, State.atEnd]
  · -- The statement would have been given.
    have given := settle_program_ne_nil last statement unfinished.noBlock
    simp [State.finish, State.atEnd, closed, inside, given] at nothing

/-! ### Among other declarations -/

section

variable {place : Place} {done : List Stmt} {errors : List Error} {state : State}

/-- A program is read behind other declarations as it is by itself. -/
theorem IsProgram.settled_foldl {tokens : List Token} (isProgram : IsProgram tokens)
    (here : settled state = place.state done errors) :
    settled (tokens.foldl State.step state) =
      place.state ((ofTokens tokens).program.reverse ++ done) errors := by
  obtain ⟨clauses, ⟨derived, spelled⟩, kept, program⟩ := exists_derives isProgram.noErrors
  have read := Clause.foldl_all derived
    (fun clause member => (derived clause member).foldl_step) place done errors state here
  rwa [spelled, text_of_plain isProgram.plain, kept, ← program] at read

/-- The first token settles what stands in front of it, unless it is an `else`. -/
theorem foldl_settled {tokens : List Token} (filled : tokens ≠ [])
    (noElse : ∀ token ∈ tokens.head?, token.kind ≠ .keyword .else_) (state : State) :
    tokens.foldl State.step state = tokens.foldl State.step (settled state) := by
  cases tokens with
  | nil => exact absurd rfl filled
  | cons token tokens =>
    rw [List.foldl_cons, List.foldl_cons, step_settled state (noElse token rfl)]

theorem settled_state (place : Place) (done : List Stmt) (errors : List Error) :
    settled (place.state done errors) = place.state done errors := by
  cases place <;> rfl

variable {spoiled : List Token} {semicolon : Token} (fruitless : Fruitless spoiled semicolon)
  (inside : place = .program ∨ ∀ token ∈ spoiled, token.kind ≠ .symbol .rightBrace)
include fruitless inside

theorem Fruitless.foldl (here : settled state = place.state done errors) :
    (spoiled ++ [semicolon]).foldl State.step state =
      place.state done ((ofTokens (spoiled ++ [semicolon])).errors.reverse ++ errors) := by
  have noElse : ∀ token ∈ (spoiled ++ [semicolon]).head?, token.kind ≠ .keyword .else_ := by
    have first := fruitless.noElse
    cases spoiled with
    | nil => simp [fruitless.ends]
    | cons token spoiled => simpa using first
  have insideAll : place = .program ∨
      ∀ token ∈ spoiled ++ [semicolon], token.kind ≠ .symbol .rightBrace := by
    refine inside.imp_right fun unclosed => ?_
    rw [List.forall_mem_append, List.forall_mem_singleton]
    exact ⟨unclosed, by simp [fruitless.ends]⟩
  rw [foldl_settled (by simp) noElse, here, ← within_initial, foldl_within insideAll,
    fruitless.foldl_initial]
  cases place <;> rfl

/-- What is in hand behind a program, the stretch, and another program. -/
theorem Fruitless.settled_foldl {before after : List Token} (isProgram : IsProgram before)
    (isProgramAfter : IsProgram after) (here : settled state = place.state [] []) :
    settled ((before ++ (spoiled ++ semicolon :: after)).foldl State.step state) =
      place.state ((ofTokens before).program ++ (ofTokens after).program).reverse
        (ofTokens (spoiled ++ [semicolon])).errors.reverse := by
  have parts : before ++ (spoiled ++ semicolon :: after) =
      before ++ (spoiled ++ [semicolon]) ++ after := by simp
  have stretch := fruitless.foldl inside (isProgram.settled_foldl here)
  rw [parts, List.foldl_append, List.foldl_append, stretch]
  simpa using isProgramAfter.settled_foldl (settled_state place _ _)

end

theorem finish_settled {state : State} {program : List Stmt} {errors : List Error} (mark : Token)
    (read : settled state = Place.program.state program errors) :
    state.finish mark = ⟨program.reverse, errors.reverse⟩ := by
  have last : state.atEnd mark = settled state := atEnd_eq_settled mark (by rw [read]; rfl)
  rw [State.finish, last, read]
  simp [Place.state]

/-- **Recovery drops only what is spoiled.** Two programs with a stretch between them that gives
no statement are read as the statements of the two, and the errors are those of the stretch. A
block of them is read as a block of these statements, with the same errors, if the stretch does
not close it. -/
theorem recovery_drops {before spoiled after : List Token} {semicolon : Token}
    (isProgram : IsProgram before) (fruitless : Fruitless spoiled semicolon)
    (isProgramAfter : IsProgram after) :
    ofTokens (before ++ spoiled ++ semicolon :: after) =
      ⟨(ofTokens before).program ++ (ofTokens after).program,
        (ofTokens (spoiled ++ [semicolon])).errors⟩ ∧
    ((∀ token ∈ spoiled, token.kind ≠ .symbol .rightBrace) → ∀ opening closing : Token,
      opening.kind = .symbol .leftBrace → closing.kind = .symbol .rightBrace →
      ofTokens (opening :: before ++ spoiled ++ semicolon :: after ++ [closing]) =
        ⟨[.block ((ofTokens before).program ++ (ofTokens after).program)],
          (ofTokens (spoiled ++ [semicolon])).errors⟩) := by
  have plain : ∀ token ∈ before ++ (spoiled ++ semicolon :: after), token.isEnd = false := by
    simp only [List.forall_mem_append, List.forall_mem_cons]
    exact ⟨isProgram.plain, fruitless.plain, by simp [Token.isEnd, fruitless.ends],
      isProgramAfter.plain⟩
  constructor
  · have begun : settled State.initial = Place.program.state [] [] := rfl
    have read := fruitless.settled_foldl (.inl rfl) isProgram isProgramAfter begun
    rw [List.append_assoc, ofTokens, ← Grammar.text, text_of_plain plain, finish_settled _ read]
    simp
  · intro unclosed opening closing opens closes
    have parts : opening :: before ++ spoiled ++ semicolon :: after ++ [closing] =
        opening :: (before ++ (spoiled ++ semicolon :: after)) ++ [closing] := by simp
    have plainAll : ∀ token ∈ opening :: (before ++ (spoiled ++ semicolon :: after)) ++ [closing],
        token.isEnd = false := by
      rw [List.forall_mem_append, List.forall_mem_cons, List.forall_mem_singleton]
      exact ⟨⟨by simp [Token.isEnd, opens], plain⟩, by simp [Token.isEnd, closes]⟩
    have begun : State.initial.step opening = (Place.block [] []).state [] [] := by
      simp [State.step, State.readDeclaration, State.readStatement, opens, State.initial,
        Place.state]
    have read := fruitless.settled_foldl (.inr unclosed) isProgram isProgramAfter
      (settled_state (.block [] []) [] [])
    have noElse : closing.kind ≠ .keyword .else_ := by simp [closes]
    -- The brace closes the block, and the end of the text settles it.
    have closed (stmts : List Stmt) (errors : List Error) :
        settled (((Place.block [] []).state stmts errors).step closing) =
          Place.program.state [.block stmts.reverse] errors := by
      simp [Place.state, State.step, State.readDeclaration, closes, settled, State.settle]
    rw [parts, ofTokens, ← Grammar.text, text_of_plain plainAll, List.foldl_append,
      List.foldl_cons, List.foldl_cons, begun, List.foldl_nil, step_settled _ noElse, read,
      finish_settled _ (closed _ _)]
    simp

/-- A parenthesis that is not closed, behind an `if` that could still take an `else`. -/
theorem recovery_drops_print :
    let before := (scan "if (a) b;").tokens.dropLast
    let spoiled := (scan "print (c").tokens.dropLast
    let semicolon : Token := ⟨.symbol .semicolon, ";", none, 1⟩
    let after := (scan "d;").tokens.dropLast
    let result := ofTokens (before ++ spoiled ++ semicolon :: after)
    IsProgram before ∧ Fruitless spoiled semicolon ∧ IsProgram after ∧
      result.errors = [⟨.missing .parenAfterExpression, semicolon⟩] ∧
      result.program.length = 2 := by
  intro before spoiled semicolon after result
  have isProgram : IsProgram before := ⟨by decide +kernel, by decide +kernel⟩
  have isProgramAfter : IsProgram after := ⟨by decide +kernel, by decide +kernel⟩
  have fruitless : Fruitless spoiled semicolon :=
    ⟨by decide +kernel, by decide +kernel, by decide +kernel, by decide +kernel, rfl,
      by decide +kernel⟩
  have read : result = _ := (recovery_drops isProgram fruitless isProgramAfter).1
  refine ⟨isProgram, fruitless, isProgramAfter, ?_⟩
  rw [read]
  exact ⟨by decide +kernel, by decide +kernel⟩

end BlockScript.Grammar
