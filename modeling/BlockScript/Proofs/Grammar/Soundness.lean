import BlockScript.Proofs.Grammar.Completeness
import BlockScript.Proofs.Grammar.Errors
import Mathlib.Data.List.Induction

/-!
# What is read can be derived

At every point of a parse, the trees that it has in hand stand for derivations, and the
tokens of these are tokens that have been read, in their order. As long as no declaration
has been spoiled, they are all of them.

## Main results

`Holds.step`: what one token does to the tokens in hand.
`holds_foldl`: what a parse has in hand after any list of tokens.
`exists_derivation`: every result stands for derivations in the text, and a text without
fatal errors is derived as a whole.

## Proof strategy

The invariant follows the data of a state from the outside to the inside: finished
declarations, surrounding contexts, what the current statement has begun with, waiting
frames, and the operand. Each part spells a list of tokens, and a frame or context keeps
the level or nonterminal that the next part has to have. Closing frames and settling
statements regroup the parts without changing the tokens that they spell.
-/

namespace BlockScript.Grammar

open Parse

/-! ### Fatal errors -/

def Spoiled (errors : List Error) : Prop :=
  ∃ error ∈ errors, error.fault.isFatal = true

theorem Spoiled.mono {errors more : List Error} (spoiled : Spoiled errors)
    (kept : errors <:+ more) : Spoiled more := by
  obtain ⟨error, member, fatal⟩ := spoiled
  exact ⟨error, kept.mem member, fatal⟩

theorem spoiled_fail (state : State) {fault : Fault} (token : Token)
    (fatal : fault.isFatal = true) : Spoiled (state.fail fault token).errors :=
  ⟨⟨fault, token⟩, List.mem_cons_self, fatal⟩

/-! ### Expressions in hand -/

/-- The tokens of waiting frames, the outermost first. What stands on the left of an
operator is derived from its level, and is itself admitted by the frame in front of it. -/
inductive Waits : List Frame → List Token → Prop where
  | nil : Waits [] []
  | unary {operator : Token} {frames : List Frame} {outer : List Token}
      (kind : operator.kind = .symbol .bang ∨ operator.kind = .symbol .minus)
      (rest : Waits frames outer) : Waits (.unary operator :: frames) (outer ++ [operator])
  | binary {left : Phrase} {operator : Token} {level : Nat} {frames : List Frame}
      {outer : List Token} (leftAt : left.At level) (kind : operator.kind ∈ operators level)
      (admits : Admits level frames) (rest : Waits frames outer) :
      Waits (.binary left.expr operator level :: frames) (outer ++ (left.tokens ++ [operator]))
  | assign {target : Phrase} {equals : Token} {frames : List Frame} {outer : List Token}
      (targetAt : target.At 1) (kind : equals.kind = .symbol .assign)
      (admits : Admits 0 frames) (rest : Waits frames outer) :
      Waits (.assign target.expr equals :: frames) (outer ++ (target.tokens ++ [equals]))
  | group {opening : Token} {frames : List Frame} {outer : List Token}
      (opens : opening.kind = .symbol .leftParen) (rest : Waits frames outer) :
      Waits (.group :: frames) (outer ++ [opening])

variable {frames : List Frame} {outer : List Token} {phrase : Phrase} {level : Nat}

/-- Every frame binds less tightly than an operand that has no binary operator. -/
theorem Waits.admits (waits : Waits frames outer) : Admits 7 frames := by
  cases waits with
  | nil | assign | group => trivial
  | unary => exact le_refl 7
  | binary _ kind => exact Nat.lt_succ_of_le (level_of_mem_operators kind).2

theorem Waits.admits_zero (waits : Waits frames outer) (admits : Admits 1 frames) :
    Admits 0 frames := by
  cases waits with
  | nil | assign | group => trivial
  | unary => exact absurd admits (by decide : ¬ 7 ≤ 1)
  | binary _ kind =>
    have low := (level_of_mem_operators kind).1
    exact absurd admits (Nat.not_lt_of_le low)

/-- An operator regroups the operands in front of it. -/
theorem Waits.reduce (waits : Waits frames outer) (derived : phrase.At level)
    (admits : Admits level frames) {precedence : Nat} (low : 1 ≤ precedence)
    (bound : precedence ≤ level) (loose : precedence ≤ 6) :
    ∃ framesNow outerNow whole,
      Parse.reduce precedence frames phrase.expr = (framesNow, Phrase.expr whole) ∧
      Waits framesNow outerNow ∧ whole.At precedence ∧ Admits precedence framesNow ∧
      outerNow ++ whole.tokens = outer ++ phrase.tokens := by
  induction waits generalizing phrase level with
  | nil => exact ⟨[], [], phrase, rfl, .nil, derived.mono bound, trivial, rfl⟩
  | @unary operator frames outer kind rest ih =>
    -- A unary operator binds more tightly than any other, so it has its operand.
    obtain ⟨framesNow, outerNow, whole, reduced, waits, wholeAt, admitsNow, same⟩ :=
      ih (.unary kind (derived.mono admits)) rest.admits (by omega)
    refine ⟨framesNow, outerNow, whole, ?_, waits, wholeAt, admitsNow, ?_⟩
    · rw [Parse.reduce]
      exact reduced
    · rw [same, Phrase.tokens, List.append_assoc]
      rfl
  | @binary left operator inner frames outer leftAt kind leftAdmits rest ih =>
    rcases Nat.lt_or_ge inner precedence with looser | tighter
    · -- A looser operator goes on waiting: the operand is the left side of the new one.
      refine ⟨_, _, phrase, ?_, .binary leftAt kind leftAdmits rest, derived.mono bound,
        looser, rfl⟩
      rw [Parse.reduce, if_neg (Nat.not_le_of_lt looser)]
    · -- Operators associate to the left: one of the same level has its right side, too.
      obtain ⟨framesNow, outerNow, whole, reduced, waits, wholeAt, admitsNow, same⟩ :=
        ih (.binary kind leftAt (derived.mono admits)) leftAdmits tighter
      refine ⟨framesNow, outerNow, whole, ?_, waits, wholeAt, admitsNow, ?_⟩
      · rw [Parse.reduce, if_pos tighter, combine_eq kind]
        exact reduced
      · rw [same, Phrase.tokens]
        simp only [List.append_assoc, List.cons_append, List.nil_append]
  | assign targetAt kind targetAdmits rest =>
    exact ⟨_, _, phrase, rfl, .assign targetAt kind targetAdmits rest, derived.mono bound,
      trivial, rfl⟩
  | group opens rest =>
    exact ⟨_, _, phrase, rfl, .group opens rest, derived.mono bound, trivial, rfl⟩

/-- No operator binds as loosely as an equals sign. -/
theorem Waits.reduce_zero (waits : Waits frames outer) (operand : Expr) :
    Parse.reduce 0 frames operand = Parse.reduce 1 frames operand := by
  induction waits generalizing operand with
  | nil | assign | group => rfl
  | unary _ _ ih => rw [Parse.reduce, Parse.reduce, ih]
  | binary _ kind _ _ ih =>
    rw [Parse.reduce, Parse.reduce, if_pos (Nat.zero_le _),
      if_pos (level_of_mem_operators kind).1, ih]

/-- An assignment stands for what closing its frame gives. -/
theorem close_assign (errors : List Error) (target value : Phrase) (equals : Token)
    (frames : List Frame) :
    ∃ bad, close errors (.assign target.expr equals :: frames) value.expr =
      close bad frames (Phrase.assign target equals value).expr := by
  rw [Phrase.expr]
  cases named : target.name? with
  | some name =>
    rw [(target.expr_eq_lookup_iff name).mpr named, close]
    exact ⟨errors, rfl⟩
  | none =>
    rw [close]
    · exact ⟨_, rfl⟩
    · intro name same
      rw [(target.expr_eq_lookup_iff name).mp same] at named
      cases named

/-- What ends an expression regroups everything back to the last parenthesis. -/
theorem Waits.close (waits : Waits frames outer) (derived : phrase.At level)
    (admits : Admits level frames) (errors : List Error) :
    ∃ whole : Phrase, whole.At 0 ∧ (Parse.close errors frames phrase.expr).operand = whole.expr ∧
      match (Parse.close errors frames phrase.expr).outside with
      | none => outer ++ phrase.tokens = whole.tokens
      | some rest => ∃ opening outerNow, opening.kind = .symbol .leftParen ∧
          Waits rest outerNow ∧ outer ++ phrase.tokens = outerNow ++ opening :: whole.tokens := by
  -- The induction goes from the operand outwards; a parenthesis stops it.
  induction waits generalizing phrase level errors with
  | nil => exact ⟨phrase, derived.mono (Nat.zero_le level), rfl, rfl⟩
  | @unary operator frames outer kind rest ih =>
    have closed := ih (.unary kind (derived.mono admits)) rest.admits errors
    simpa [Parse.close, Phrase.expr, Phrase.tokens] using closed
  | @binary left operator inner frames outer leftAt kind leftAdmits rest ih =>
    have closed := ih (.binary kind leftAt (derived.mono admits)) leftAdmits errors
    rw [← combine_eq kind] at closed
    simpa [Parse.close, Phrase.tokens] using closed
  | @assign target equals frames outer targetAt kind targetAdmits rest ih =>
    obtain ⟨bad, same⟩ := close_assign errors target phrase equals frames
    have closed := ih (.assign kind targetAt (derived.mono (Nat.zero_le level))) targetAdmits bad
    rw [same]
    simpa [Phrase.tokens] using closed
  | @group opening frames outer opens rest =>
    exact ⟨phrase, derived.mono (Nat.zero_le level), rfl, opening, outer, opens, rest, by simp⟩

/-! ### Statements in hand -/

namespace Clause

theorem allTokens_append (clauses more : List Clause) :
    allTokens (clauses ++ more) = allTokens clauses ++ allTokens more := by
  induction clauses with
  | nil => rfl
  | cons clause clauses ih => simp [allTokens, ih]

theorem allStmts_append (clauses more : List Clause) :
    allStmts (clauses ++ more) = allStmts clauses ++ allStmts more := by
  induction clauses with
  | nil => rfl
  | cons clause clauses ih => simp [allStmts, ih]

end Clause

/-- The tokens of declarations that stand in a row and are listed latest first. -/
inductive Body : List Stmt → List Token → Prop where
  | nil : Body [] []
  | snoc {clause : Clause} {stmts : List Stmt} {earlier : List Token} (body : Body stmts earlier)
      (derived : clause.From .declaration) : Body (clause.stmt :: stmts) (earlier ++ clause.tokens)

theorem Body.exists_clauses {stmts : List Stmt} {spelled : List Token}
    (body : Body stmts spelled) :
    ∃ clauses, (∀ clause ∈ clauses, clause.From .declaration) ∧
      Clause.allStmts clauses = stmts.reverse ∧ Clause.allTokens clauses = spelled := by
  induction body with
  | nil => exact ⟨[], by simp, rfl, rfl⟩
  | @snoc clause stmts earlier _ derived ih =>
    obtain ⟨clauses, each, trees, spelled⟩ := ih
    refine ⟨clauses ++ [clause], ?_, ?_, ?_⟩
    · intro other member
      rcases List.mem_append.mp member with before | last
      · exact each other before
      · rw [List.mem_singleton.mp last]
        exact derived
    · rw [Clause.allStmts_append, trees, List.reverse_cons]
      rfl
    · rw [Clause.allTokens_append, spelled]
      simp [Clause.allTokens]

/-- The tokens of the contexts around a statement, the outermost first. -/
inductive Surrounds : List Context → List Token → Prop where
  | nil : Surrounds [] []
  | block {contexts : List Context} {outer inner : List Token} {stmts : List Stmt}
      {opening : Token} (rest : Surrounds contexts outer) (opens : opening.kind = .symbol .leftBrace)
      (body : Body stmts inner) : Surrounds (.block stmts :: contexts) (outer ++ opening :: inner)
  | thenBranch {contexts : List Context} {outer : List Token} {keyword opening closing : Token}
      {condition : Phrase} (rest : Surrounds contexts outer) (word : keyword.kind = .keyword .if_)
      (opens : opening.kind = .symbol .leftParen) (tested : condition.At 0)
      (closes : closing.kind = .symbol .rightParen) :
      Surrounds (.thenBranch condition.expr :: contexts)
        (outer ++ keyword :: opening :: (condition.tokens ++ [closing]))
  | elseBranch {contexts : List Context} {outer : List Token}
      {keyword opening closing otherwise : Token} {condition : Phrase} {consequent : Clause}
      (rest : Surrounds contexts outer) (word : keyword.kind = .keyword .if_)
      (opens : opening.kind = .symbol .leftParen) (tested : condition.At 0)
      (closes : closing.kind = .symbol .rightParen) (first : consequent.From .statement)
      (nearest : consequent.isOpen = false) (elseWord : otherwise.kind = .keyword .else_) :
      Surrounds (.elseBranch condition.expr consequent.stmt :: contexts)
        (outer ++ keyword :: opening :: (condition.tokens ++ closing ::
          (consequent.tokens ++ [otherwise])))

/-- Whether the innermost context leaves room for a declaration. -/
def Declares : List Context → Prop
  | [] => True
  | .block _ :: _ => True
  | _ => False

/-- Giving up a declaration leaves the contexts of its block. -/
theorem Surrounds.dropWhile {contexts : List Context} (surrounds : Surrounds contexts outer) :
    ∃ outerNow, Surrounds (contexts.dropWhile (fun context => !context.isBlock)) outerNow ∧
      Declares (contexts.dropWhile (fun context => !context.isBlock)) ∧
      List.Sublist outerNow outer := by
  induction surrounds with
  | nil => exact ⟨[], .nil, trivial, .slnil⟩
  | block rest opens body => exact ⟨_, .block rest opens body, trivial, List.Sublist.refl _⟩
  | thenBranch _ _ _ _ _ ih | elseBranch _ _ _ _ _ _ _ _ ih =>
    obtain ⟨outerNow, surrounds, declares, kept⟩ := ih
    exact ⟨outerNow, surrounds, declares, kept.trans (List.sublist_append_left _ _)⟩

/-- A finished statement is put where it belongs, and where an `else` follows a branch that
has none, it goes to that branch. -/
theorem Surrounds.settle {contexts : List Context} {done : List Token} {clause : Clause}
    {nonterminal : Nonterminal} (surrounds : Surrounds contexts outer) (state : State)
    (body : Body state.program done) (derived : clause.From nonterminal)
    (fits : nonterminal = .declaration → Declares contexts) (elseFollows : Bool)
    (complete : elseFollows = true → clause.isOpen = false) :
    let next := state.settle elseFollows clause.stmt contexts
    (next.mode = .declaration ∧ Declares next.contexts ∧ ∃ doneNow outerNow,
      Body next.program doneNow ∧ Surrounds next.contexts outerNow ∧
      doneNow ++ outerNow = done ++ (outer ++ clause.tokens)) ∨
    (elseFollows = true ∧ next.mode = .statement ∧ Body next.program done ∧
      ∀ otherwise : Token, otherwise.kind = .keyword .else_ →
        Surrounds next.contexts (outer ++ (clause.tokens ++ [otherwise]))) := by
  -- Settling goes outwards through all branches that the statement completes, and the
  -- statement becomes larger with each of them.
  induction surrounds generalizing clause nonterminal with
  | nil =>
    left
    refine ⟨rfl, trivial, _, _, .snoc body derived.toDeclaration, .nil, ?_⟩
    simp
  | @block contexts outer inner stmts opening rest opens inside =>
    left
    refine ⟨rfl, trivial, _, _, body, .block rest opens (.snoc inside derived.toDeclaration), ?_⟩
    simp
  | @thenBranch contexts outer keyword opening closing condition rest word opens tested closes ih =>
    have branch : clause.From .statement := by
      cases nonterminal with
      | declaration => exact (fits rfl).elim
      | statement => exact derived
    cases elseFollows with
    | true =>
      -- The innermost `if` takes the `else`, and nothing is settled yet.
      right
      refine ⟨rfl, rfl, body, fun otherwise elseWord => ?_⟩
      have taken : Surrounds _ _ :=
        .elseBranch rest word opens tested closes branch (complete rfl) elseWord
      simpa [State.settle] using taken
    | false =>
      have settled := ih (.ifThen word opens tested closes branch) (by simp) (by simp)
      simpa [State.settle, Clause.stmt, Clause.tokens] using settled
  | @elseBranch contexts outer keyword opening closing otherwise condition consequent rest word
      opens tested closes first nearest elseWord ih =>
    have branch : clause.From .statement := by
      cases nonterminal with
      | declaration => exact (fits rfl).elim
      | statement => exact derived
    have settled := ih (.ifElse word opens tested closes first nearest elseWord branch) (by simp)
      complete
    simpa [State.settle, Clause.stmt, Clause.tokens] using settled

/-! ### The invariant -/

/-- The tokens with which a statement has begun that an expression is read for. -/
inductive Serves (contexts : List Context) : Purpose → List Token → Prop where
  | expression : Serves contexts .expression []
  | print {keyword : Token} (word : keyword.kind = .keyword .print_) :
      Serves contexts (.print keyword) [keyword]
  | initializer {keyword name equals : Token} (room : Declares contexts)
      (word : keyword.kind = .keyword .var_) (named : name.kind = .identifier)
      (sets : equals.kind = .symbol .assign) :
      Serves contexts (.initializer name) [keyword, name, equals]
  | condition {keyword opening : Token} (word : keyword.kind = .keyword .if_)
      (opens : opening.kind = .symbol .leftParen) : Serves contexts .condition [keyword, opening]

/-- The tokens of what is being read inside of the contexts. -/
inductive Reading (contexts : List Context) (errors : List Error) : Mode → List Token → Prop where
  | declaration (room : Declares contexts) : Reading contexts errors .declaration []
  | statement : Reading contexts errors .statement []
  | closed {nonterminal : Nonterminal} {clause : Clause} (derived : clause.From nonterminal)
      (fits : nonterminal = .declaration → Declares contexts) (complete : clause.isOpen = false) :
      Reading contexts errors (.closed clause.stmt) clause.tokens
  | variableName {keyword : Token} (room : Declares contexts)
      (word : keyword.kind = .keyword .var_) : Reading contexts errors .variableName [keyword]
  | variableTail {keyword name : Token} (room : Declares contexts)
      (word : keyword.kind = .keyword .var_) (named : name.kind = .identifier) :
      Reading contexts errors (.variableTail name) [keyword, name]
  | conditionParen {keyword : Token} (word : keyword.kind = .keyword .if_) :
      Reading contexts errors .conditionParen [keyword]
  | operand {frames : List Frame} {purpose : Purpose} {begun waiting : List Token}
      (serves : Serves contexts purpose begun) (waits : Waits frames waiting) :
      Reading contexts errors (.operand frames purpose) (begun ++ waiting)
  | operator {frames : List Frame} {purpose : Purpose} {begun waiting : List Token}
      {phrase : Phrase} (serves : Serves contexts purpose begun) (waits : Waits frames waiting)
      (primary : phrase.At 8) :
      Reading contexts errors (.operator frames purpose phrase.expr)
        (begun ++ (waiting ++ phrase.tokens))
  | recovering (room : Declares contexts) (spoiled : Spoiled errors) :
      Reading contexts errors .recovering []

/-- A state and the tokens that the trees in it stand for. -/
def Holds (state : State) (kept : List Token) : Prop :=
  ∃ done outer inner, Body state.program done ∧ Surrounds state.contexts outer ∧
    Reading state.contexts state.errors state.mode inner ∧ kept = done ++ (outer ++ inner)

/-- What a token may do to the tokens in hand: it joins them, or a declaration is spoiled
and only some of them are kept. -/
def Takes (kept : List Token) (token : Token) (next : State) : Prop :=
  ∃ keptNow, Holds next keptNow ∧
    (keptNow = kept ++ [token] ∨
      Spoiled next.errors ∧ List.Sublist keptNow (kept ++ [token]))

section

variable {state : State} {token : Token} {done inner : List Token}

theorem takes_fail (body : Body state.program done) (surrounds : Surrounds state.contexts outer)
    {fault : Fault} (fatal : fault.isFatal = true) (inner : List Token) (token : Token) :
    Takes (done ++ (outer ++ inner)) token (state.fail fault token) := by
  -- What was being read is given up, with the branches that it was read for.
  obtain ⟨outerNow, surroundsNow, room, fewer⟩ := surrounds.dropWhile
  have spoiled := spoiled_fail state token fatal
  refine ⟨done ++ (outerNow ++ []), ⟨done, outerNow, [], body, surroundsNow, ?_, rfl⟩,
    .inr ⟨spoiled, ?_⟩⟩
  · unfold State.fail
    split
    · exact .declaration room
    · exact .recovering room spoiled
  · rw [List.append_assoc]
    refine (List.Sublist.refl done).append ?_
    rw [List.append_assoc]
    exact fewer.append (List.nil_sublist _)

/-- A token that joins what is being read. -/
theorem takes_of_reading {next : State} (body : Body next.program done)
    (surrounds : Surrounds next.contexts outer)
    (reading : Reading next.contexts next.errors next.mode (inner ++ [token])) :
    Takes (done ++ (outer ++ inner)) token next :=
  ⟨_, ⟨done, outer, inner ++ [token], body, surrounds, reading, rfl⟩, .inl (by simp)⟩

theorem takes_readOperand {frames : List Frame} {purpose : Purpose} {begun waiting : List Token}
    (body : Body state.program done) (surrounds : Surrounds state.contexts outer)
    (serves : Serves state.contexts purpose begun) (waits : Waits frames waiting) (token : Token) :
    Takes (done ++ (outer ++ (begun ++ waiting))) token
      (state.readOperand frames purpose token) := by
  -- An operator or a parenthesis only waits for the operand that is still to come.
  have joins (frame : Frame) (waitsNow : Waits (frame :: frames) (waiting ++ [token])) :
      Takes (done ++ (outer ++ (begun ++ waiting))) token
        { state with mode := .operand (frame :: frames) purpose } := by
    refine takes_of_reading body surrounds ?_
    rw [List.append_assoc]
    exact .operand serves waitsNow
  unfold State.readOperand
  split
  next kind => exact joins _ (.unary (.inl kind) waits)
  next kind => exact joins _ (.unary (.inr kind) waits)
  next kind => exact joins _ (.group kind waits)
  · split
    next operand known =>
      obtain ⟨alone, rfl⟩ := atom?_eq_some_iff.mp known
      refine takes_of_reading body surrounds ?_
      rw [List.append_assoc]
      exact .operator serves waits (.atom alone)
    · exact takes_fail body surrounds rfl _ token

/-- A token of the one kind that fits joins what is being read. -/
theorem takes_expected {mode : Mode} {kind : TokenKind} {fault : Fault}
    (body : Body state.program done) (surrounds : Surrounds state.contexts outer)
    (fatal : fault.isFatal = true)
    (reading : token.kind = kind → Reading state.contexts state.errors mode (inner ++ [token])) :
    Takes (done ++ (outer ++ inner)) token
      (if token.kind = kind then { state with mode := mode } else state.fail fault token) := by
  split
  next fits => exact takes_of_reading body surrounds (reading fits)
  · exact takes_fail body surrounds fatal inner token

theorem takes_readEnd {purpose : Purpose} {begun : List Token} (body : Body state.program done)
    (surrounds : Surrounds state.contexts outer) (serves : Serves state.contexts purpose begun)
    (derived : phrase.At 0) (token : Token) :
    Takes (done ++ (outer ++ (begun ++ phrase.tokens))) token
      (state.readEnd purpose phrase.expr token) := by
  cases serves with
  | expression =>
    exact takes_expected body surrounds rfl
      (fun ends => .closed (.expression derived ends) (by simp) rfl)
  | print word =>
    exact takes_expected body surrounds rfl
      (fun ends => .closed (.print word derived ends) (by simp) rfl)
  | initializer room word named sets =>
    exact takes_expected body surrounds rfl
      (fun ends => .closed (.varInit word named sets derived ends) (fun _ => room) rfl)
  | condition word opens =>
    simp only [State.readEnd]
    split
    next closes =>
      refine ⟨_, ⟨done, _, [], body, .thenBranch surrounds word opens derived closes,
        .statement, rfl⟩, .inl ?_⟩
      simp
    · exact takes_fail body surrounds rfl _ token

theorem takes_readOperator {frames : List Frame} {purpose : Purpose} {begun waiting : List Token}
    (body : Body state.program done) (surrounds : Surrounds state.contexts outer)
    (serves : Serves state.contexts purpose begun) (waits : Waits frames waiting)
    (primary : phrase.At 8) (token : Token) :
    Takes (done ++ (outer ++ (begun ++ (waiting ++ phrase.tokens)))) token
      (state.readOperator frames purpose phrase.expr token) := by
  have operandAt := primary.mono (by decide : 7 ≤ 8)
  unfold State.readOperator
  split
  next precedence known =>
    -- A binary operator: what it closes becomes its left side.
    have kind := precedence?_eq_some_iff.mp known
    obtain ⟨low, high⟩ := level_of_mem_operators kind
    obtain ⟨framesNow, waitingNow, whole, reduced, waitsNow, wholeAt, admits, same⟩ :=
      waits.reduce operandAt waits.admits low (Nat.le_succ_of_le high) high
    rw [reduced, ← same]
    refine takes_of_reading body surrounds ?_
    simp only [List.append_assoc]
    exact .operand serves (.binary wholeAt kind admits waitsNow)
  next =>
    split
    next kind =>
      -- An equals sign closes all operators, as one of the loosest level would.
      obtain ⟨framesNow, waitingNow, whole, reduced, waitsNow, wholeAt, admits, same⟩ :=
        waits.reduce operandAt waits.admits le_rfl (by decide) (by decide)
      rw [waits.reduce_zero, reduced, ← same]
      refine takes_of_reading body surrounds ?_
      simp only [List.append_assoc]
      exact .operand serves (.assign wholeAt kind (waitsNow.admits_zero admits) waitsNow)
    next =>
      -- Any other token ends the expression, or the part of it in a parenthesis.
      obtain ⟨whole, wholeAt, operandEq, closed⟩ :=
        waits.close operandAt waits.admits state.errors
      let ended := { state with errors := (close state.errors frames phrase.expr).badTargets }
      have endedBody : Body ended.program done := body
      have endedSurrounds : Surrounds ended.contexts outer := surrounds
      simp only
      split
      next rest outside =>
        rw [outside] at closed
        obtain ⟨opening, waitingNow, opens, waitsNow, same⟩ := closed
        split
        next closes =>
          rw [same, operandEq]
          refine takes_of_reading body surrounds ?_
          have group : Reading state.contexts (close state.errors frames phrase.expr).badTargets
              (.operator rest purpose (Phrase.parens opening whole token).expr) _ :=
            .operator serves waitsNow (.parens opens wholeAt closes)
          simpa [Phrase.expr, Phrase.tokens] using group
        · exact takes_fail endedBody endedSurrounds rfl _ token
      next outside =>
        rw [outside] at closed
        rw [closed, operandEq]
        exact takes_readEnd endedBody endedSurrounds serves wholeAt token

theorem takes_readStatement (body : Body state.program done)
    (surrounds : Surrounds state.contexts outer) (token : Token) :
    Takes (done ++ (outer ++ [])) token (state.readStatement token) := by
  unfold State.readStatement
  split
  next word => exact takes_of_reading body surrounds (.conditionParen word)
  next word =>
    have reading : Reading state.contexts state.errors (.operand [] (.print token))
        ([token] ++ []) := .operand (.print word) .nil
    exact takes_of_reading body surrounds reading
  next opens =>
    refine ⟨_, ⟨done, _, [], body, .block surrounds opens .nil, .declaration trivial, rfl⟩,
      .inl ?_⟩
    simp
  · exact takes_readOperand body surrounds .expression .nil token

theorem takes_readDeclaration (body : Body state.program done)
    (surrounds : Surrounds state.contexts outer) (room : Declares state.contexts)
    (token : Token) : Takes (done ++ (outer ++ [])) token (state.readDeclaration token) := by
  unfold State.readDeclaration
  split
  next word => exact takes_of_reading body surrounds (.variableName room word)
  next stmts rest closes contextsEq =>
    rw [contextsEq] at surrounds
    cases surrounds with
    | @block _ outer inner _ opening restSurrounds opens inside =>
      obtain ⟨clauses, each, trees, spelled⟩ := inside.exists_clauses
      have whole : Reading rest state.errors (.closed (Clause.block opening clauses token).stmt) _ :=
        .closed (.block opens each closes) (by simp) rfl
      rw [Clause.stmt, trees] at whole
      refine ⟨_, ⟨done, outer, _, body, restSurrounds, whole, rfl⟩, .inl ?_⟩
      simp [Clause.tokens, spelled]
  · exact takes_readStatement body surrounds token

theorem takes_readAfter {nonterminal : Nonterminal} {clause : Clause}
    (body : Body state.program done) (surrounds : Surrounds state.contexts outer)
    (derived : clause.From nonterminal)
    (fits : nonterminal = .declaration → Declares state.contexts)
    (complete : clause.isOpen = false) (token : Token) :
    Takes (done ++ (outer ++ clause.tokens)) token (state.readAfter clause.stmt token) := by
  unfold State.readAfter
  rcases surrounds.settle state body derived fits (token.kind = .keyword .else_)
      (fun _ => complete) with
    ⟨declares, room, doneNow, outerNow, bodyNow, surroundsNow, same⟩ |
    ⟨elseWord, branches, bodyNow, surroundsNow⟩
  · -- The statement is settled, and the token begins the next declaration.
    simp only [declares]
    rw [← same, ← List.append_nil (doneNow ++ outerNow), List.append_assoc]
    exact takes_readDeclaration bodyNow surroundsNow room token
  · -- The token is the `else` that has been waited for.
    simp only [branches]
    refine ⟨_, ⟨done, _, [], bodyNow, surroundsNow token (by simpa using elseWord), ?_, rfl⟩,
      .inl ?_⟩
    · rw [branches]
      exact .statement
    · simp

theorem takes_readRecovering (recovers : state.mode = .recovering)
    (body : Body state.program done) (surrounds : Surrounds state.contexts outer)
    (room : Declares state.contexts) (spoiled : Spoiled state.errors) (token : Token) :
    Takes (done ++ (outer ++ [])) token (state.readRecovering token) := by
  have fewer : List.Sublist (done ++ (outer ++ [])) (done ++ (outer ++ []) ++ [token]) :=
    List.sublist_append_left _ _
  have skipped : Takes (done ++ (outer ++ [])) token state :=
    ⟨_, ⟨done, outer, [], body, surrounds, recovers ▸ .recovering room spoiled, rfl⟩,
      .inr ⟨spoiled, fewer⟩⟩
  unfold State.readRecovering
  split
  · exact ⟨_, ⟨done, outer, [], body, surrounds, .declaration room, rfl⟩,
      .inr ⟨spoiled, fewer⟩⟩
  · split
    · exact takes_readDeclaration body surrounds room token
    · exact skipped
  · exact skipped

/-- What one token does to the tokens in hand. -/
theorem Holds.step {kept : List Token} (holds : Holds state kept) (token : Token) :
    Takes kept token (state.step token) := by
  obtain ⟨done, outer, inner, body, surrounds, reading, rfl⟩ := holds
  rcases state with ⟨mode, contexts, program, errors⟩
  cases reading with
  | declaration room => exact takes_readDeclaration body surrounds room token
  | statement => exact takes_readStatement body surrounds token
  | closed derived fits complete => exact takes_readAfter body surrounds derived fits complete token
  | variableName room word =>
    exact takes_expected body surrounds rfl (fun named => .variableTail room word named)
  | variableTail room word named =>
    simp only [State.step]
    split
    next sets =>
      have reading : Reading contexts errors (.operand [] (.initializer _)) (_ ++ []) :=
        .operand (.initializer room word named sets) .nil
      exact takes_of_reading body surrounds reading
    next ends =>
      exact takes_of_reading body surrounds (.closed (.var word named ends) (fun _ => room) rfl)
    · exact takes_fail body surrounds rfl _ token
  | conditionParen word =>
    refine takes_expected body surrounds rfl (fun opens => ?_)
    have reading : Reading contexts errors (.operand [] .condition) (_ ++ []) :=
      .operand (.condition word opens) .nil
    exact reading
  | operand serves waits => exact takes_readOperand body surrounds serves waits token
  | operator serves waits primary =>
    exact takes_readOperator body surrounds serves waits primary token
  | recovering room spoiled => exact takes_readRecovering rfl body surrounds room spoiled token

end

/-! ### Whole texts -/

/-- What a parse has in hand after any tokens. -/
theorem holds_foldl (tokens : List Token) :
    let state := tokens.foldl State.step State.initial
    ∃ kept, Holds state kept ∧
      (kept = tokens ∨ Spoiled state.errors ∧ List.Sublist kept tokens) := by
  induction tokens using List.reverseRecOn with
  | nil =>
    exact ⟨[], ⟨[], [], [], .nil, .nil, .declaration trivial, rfl⟩, .inl rfl⟩
  | append_singleton tokens token ih =>
    obtain ⟨kept, holds, all⟩ := ih
    obtain ⟨keptNow, holdsNow, taken⟩ := holds.step token
    simp only [List.foldl_append, List.foldl_cons, List.foldl_nil]
    refine ⟨keptNow, holdsNow, ?_⟩
    rcases all with rfl | ⟨spoiled, fewer⟩
    · exact taken
    · -- What has been spoiled before stays so, whatever the token does.
      right
      have still := spoiled.mono (State.suffix_step _ token)
      rcases taken with rfl | ⟨_, fewerNow⟩
      · exact ⟨still, fewer.append (List.Sublist.refl _)⟩
      · exact ⟨still, fewerNow.trans (fewer.append (List.Sublist.refl _))⟩

theorem isEnd_endMark (tokens : List Token) : (endMark tokens).isEnd = true := by
  unfold endMark
  split
  next mark found => exact List.find?_some found
  · rfl

theorem readEnd_mark (state : State) (purpose : Purpose) (value : Expr) {mark : Token}
    (ends : mark.kind = .endOfInput) :
    (state.readEnd purpose value mark).program = state.program ∧
      Spoiled (state.readEnd purpose value mark).errors := by
  cases purpose <;> simp [State.readEnd, ends, State.fail, State.record, Spoiled, Fault.isFatal]

/-- The mark of the end completes no expression. -/
theorem readOperator_mark (state : State) (frames : List Frame) (purpose : Purpose)
    (operand : Expr) {mark : Token} (ends : mark.kind = .endOfInput) :
    (state.readOperator frames purpose operand mark).program = state.program ∧
      Spoiled (state.readOperator frames purpose operand mark).errors := by
  simp only [State.readOperator, ends, precedence?, reduceCtorEq, if_false]
  split
  · exact ⟨rfl, spoiled_fail _ mark rfl⟩
  · let ended := { state with errors := (close state.errors frames operand).badTargets }
    exact readEnd_mark ended purpose _ ends

/-- The end of the text completes a finished statement, and spoils what is being read. -/
theorem atEnd_cases (state : State) {mark : Token} (ends : mark.kind = .endOfInput) :
    (state.mode = .declaration ∧ state.atEnd mark = state) ∨
    (∃ statement, state.mode = .closed statement ∧
      state.atEnd mark = state.settle false statement state.contexts) ∨
    (state.mode = .recovering ∧ state.atEnd mark = state) ∨
    ((state.atEnd mark).program = state.program ∧ Spoiled (state.atEnd mark).errors) := by
  rcases state with ⟨mode, contexts, program, errors⟩
  cases mode with
  | declaration => exact .inl ⟨rfl, rfl⟩
  | closed statement => exact .inr (.inl ⟨statement, rfl, rfl⟩)
  | recovering => exact .inr (.inr (.inl ⟨rfl, rfl⟩))
  -- In all other modes the mark is read like a token, and fits nowhere.
  | operator frames purpose operand =>
    exact .inr (.inr (.inr (readOperator_mark _ frames purpose operand ends)))
  | statement | variableName | variableTail | conditionParen | operand =>
    right; right; right
    simp [State.atEnd, State.step, State.readStatement, State.readOperand, ends, atom?,
      State.fail, State.record, Spoiled, Fault.isFatal]

/-- A text in which no declaration is spoiled leaves nothing open. -/
theorem Surrounds.eq_nil {contexts : List Context} (surrounds : Surrounds contexts outer)
    (room : Declares contexts) (closed : contexts.filter Context.isBlock = []) : outer = [] := by
  cases surrounds with
  | nil => rfl
  | block => simp [Context.isBlock] at closed
  | thenBranch | elseBranch => exact room.elim

/-- What a parse has in hand when the text has ended. -/
theorem Holds.atEnd {state : State} {kept : List Token} (holds : Holds state kept) {mark : Token}
    (ends : mark.kind = .endOfInput) :
    ∃ done, Body (state.atEnd mark).program done ∧ List.Sublist done kept ∧
      (Spoiled (state.atEnd mark).errors ∨ Declares (state.atEnd mark).contexts ∧
        ∃ outer, Surrounds (state.atEnd mark).contexts outer ∧ done ++ outer = kept) := by
  obtain ⟨done, outer, inner, body, surrounds, reading, rfl⟩ := holds
  rcases atEnd_cases state ends with
    ⟨mode, last⟩ | ⟨statement, mode, last⟩ | ⟨mode, last⟩ | ⟨program, spoiled⟩
  · rw [mode] at reading
    rw [last]
    cases reading with
    | declaration room =>
      exact ⟨done, body, List.sublist_append_left _ _, .inr ⟨room, outer, surrounds, by simp⟩⟩
  · rw [mode] at reading
    rw [last]
    cases reading with
    | closed derived fits _ =>
      rcases surrounds.settle state body derived fits false (by simp) with
        ⟨_, room, doneNow, outerNow, bodyNow, surroundsNow, same⟩ | ⟨absent, _⟩
      · rw [← same]
        exact ⟨doneNow, bodyNow, List.sublist_append_left _ _,
          .inr ⟨room, outerNow, surroundsNow, rfl⟩⟩
      · cases absent
  · rw [mode] at reading
    rw [last]
    cases reading with
    | recovering _ spoiled => exact ⟨done, body, List.sublist_append_left _ _, .inl spoiled⟩
  · exact ⟨done, program ▸ body, List.sublist_append_left _ _, .inl spoiled⟩

/-- The program that is read stands for declarations whose tokens are found in the text in
their order; if no declaration of it is spoiled, they are the whole text. -/
theorem exists_derivation (tokens : List Token) :
    let text := tokens.takeWhile (fun token => !token.isEnd)
    ∃ clauses, (∀ clause ∈ clauses, clause.From .declaration) ∧
      (ofTokens tokens).program = Clause.allStmts clauses ∧
      List.Sublist (Clause.allTokens clauses) text ∧
      (¬ Spoiled (ofTokens tokens).errors → Clause.allTokens clauses = text) := by
  intro text
  obtain ⟨kept, holds, all⟩ := holds_foldl text
  have ends : (endMark tokens).kind = .endOfInput := by
    simpa [Token.isEnd] using isEnd_endMark tokens
  obtain ⟨done, body, fewer, last⟩ := holds.atEnd ends
  obtain ⟨clauses, each, trees, spelled⟩ := body.exists_clauses
  have keptFewer : List.Sublist kept text := by
    rcases all with rfl | ⟨_, fewer⟩
    · exact List.Sublist.refl text
    · exact fewer
  refine ⟨clauses, each, trees.symm, spelled ▸ fewer.trans keptFewer, fun sound => ?_⟩
  have soundLast : ¬ Spoiled ((text.foldl State.step State.initial).atEnd
      (endMark tokens)).errors := by
    rintro ⟨error, member, fatal⟩
    exact sound ⟨error, List.mem_append_left _ (List.mem_reverse.mpr member), fatal⟩
  rcases last with spoiled | ⟨room, outer, surrounds, same⟩
  · exact absurd spoiled soundLast
  · -- A block that is still open would be an error.
    have closed : ((text.foldl State.step State.initial).atEnd
        (endMark tokens)).contexts.filter Context.isBlock = [] := by
      refine List.eq_nil_iff_forall_not_mem.mpr (fun context member => sound ?_)
      exact ⟨_, List.mem_append_right _ (List.mem_map.mpr ⟨context, member, rfl⟩), rfl⟩
    rw [surrounds.eq_nil room closed, List.append_nil] at same
    rw [spelled, same]
    rcases all with whole | ⟨spoiled, _⟩
    · exact whole
    · exact absurd (spoiled.mono (State.suffix_atEnd _ _)) soundLast

end BlockScript.Grammar
