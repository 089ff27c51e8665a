import BlockScript.Proofs.Grammar.Derivation
import BlockScript.Proofs.Source.Spelling

/-!
# The text of a tree spells its derivation

A tree is written without parentheses of its own and with few blanks, so its text could be
cut into other tokens than those it was derived from.

## Main results

`Phrase.At.spells`, `Clause.From.prints`: if the tokens of a derivation are written the
canonical way and no assignment of it is lost, the text of its tree spells its tokens.
`spells_program`: the same for programs.

## Proof strategy

By induction on the derivation, for any text that follows and begins with a character that
separates tokens. Inside an expression only a parenthesis and a unary operator have no
blank after them, and no expression begins with an equals sign.
-/

namespace BlockScript

/-- Whether a token is as printing a tree and reading it again makes it: on no line, and a
number in its shortest form. -/
structure Token.IsCanonical (token : Token) : Prop where
  genuine : token.IsGenuine
  unlined : token.line = 0
  shortest : ∀ x, token.literal = some (.number x) → token.lexeme = Number.text x

/-- Whether a text begins with a character that ends any token before it. -/
def Separates (text : List Char) : Prop :=
  ∀ c ∈ text.head?, c ∈ [' ', '\n', ')', ';']

theorem Separates.endsBefore {text : List Char} (separates : Separates text) (kind : TokenKind) :
    kind.EndsBefore text := by
  cases text with
  | nil => exact kind.endsBefore_nil
  | cons c text =>
    -- No separator is a part of a word or a number, nor can it lengthen a symbol.
    have known := separates c rfl
    simp only [List.mem_cons, List.not_mem_nil, or_false] at known
    rcases known with rfl | rfl | rfl | rfl <;> unfold TokenKind.EndsBefore <;> split <;>
      simp [Character.isWordPart, Character.isWordStart, Character.isDigit]

theorem separates_cons {c : Char} (text : List Char) (known : c ∈ [' ', '\n', ')', ';']) :
    Separates (c :: text) := by
  intro first head
  obtain rfl : c = first := by simpa using head
  exact known

/-! ### Lexemes -/

section

variable {token : Token} {rest : List Char} {tokens : List Token}

theorem Token.IsGenuine.lexeme_of_symbol {symbol : Symbol} (genuine : token.IsGenuine)
    (kind : token.kind = .symbol symbol) : token.lexeme.toList = symbol.spelling := by
  unfold IsGenuine at genuine
  rw [kind] at genuine
  generalize token.lexeme.toList = text, token.literal = literal at genuine
  cases genuine
  rfl

theorem Token.IsGenuine.lexeme_of_keyword {word : Keyword} (genuine : token.IsGenuine)
    (kind : token.kind = .keyword word) : token.lexeme = word.spelling := by
  unfold IsGenuine at genuine
  rw [kind] at genuine
  generalize spelled : token.lexeme.toList = text, token.literal = literal at genuine
  cases genuine
  exact String.toList_inj.mp spelled

theorem Token.IsGenuine.literal_of_number (genuine : token.IsGenuine)
    (kind : token.kind = .number) : ∃ x, token.literal = some (.number x) := by
  unfold IsGenuine at genuine
  rw [kind] at genuine
  generalize token.lexeme.toList = text, token.literal = literal at genuine
  cases genuine
  exact ⟨_, rfl⟩

theorem Token.IsGenuine.literal_of_string (genuine : token.IsGenuine)
    (kind : token.kind = .string) :
    ∃ body, token.literal = some (.string body) ∧ token.lexeme = "\"" ++ body ++ "\"" := by
  unfold IsGenuine at genuine
  rw [kind] at genuine
  generalize spelled : token.lexeme.toList = text, token.literal = literal at genuine
  cases genuine with
  | @string body _ =>
    refine ⟨_, rfl, String.toList_inj.mp ?_⟩
    simp [spelled]

/-- The text of a token that is no symbol does not begin with an equals sign. -/
theorem Token.IsGenuine.exists_head (genuine : token.IsGenuine)
    (noSymbol : ∀ symbol, token.kind ≠ .symbol symbol) :
    ∃ c more, token.lexeme.toList = c :: more ∧ c ≠ '=' := by
  have wordStart {c : Char} (start : Character.isWordStart c = true) : c ≠ '=' := by
    rintro rfl
    exact absurd start (by decide)
  unfold IsGenuine at genuine
  generalize token.lexeme.toList = text, token.literal = literal, token.kind = kind
    at genuine noSymbol
  cases genuine with
  | symbol symbol => exact absurd rfl (noSymbol symbol)
  | keyword word =>
    obtain ⟨c, more, spelled, start, _⟩ := word.spelling_eq_cons
    exact ⟨c, more, spelled, wordStart start⟩
  | identifier start => exact ⟨_, _, rfl, wordStart start⟩
  | string => exact ⟨'"', _, rfl, by decide⟩
  | number form =>
    obtain ⟨first, more, rfl, digit⟩ := Number.numeral_eq_cons form
    refine ⟨first, _, Number.numeral_cons first more _, ?_⟩
    rintro rfl
    exact absurd digit (by decide)

/-- A token in front of a separator. -/
theorem Spells.word (later : Spells rest tokens) (canonical : token.IsCanonical)
    (separates : Separates rest) : Spells (token.lexeme.toList ++ rest) (token :: tokens) :=
  later.token canonical.genuine canonical.unlined (separates.endsBefore token.kind)

/-- A bracket or a semicolon, in front of anything. -/
theorem Spells.bracket (later : Spells rest tokens) (canonical : token.IsCanonical)
    {symbol : Symbol} (kind : token.kind = .symbol symbol) (c : Char)
    (spelled : symbol.spelling = [c])
    (closed : symbol = .leftParen ∨ symbol = .rightParen ∨ symbol = .leftBrace ∨
      symbol = .rightBrace ∨ symbol = .semicolon) : Spells (c :: rest) (token :: tokens) := by
  have apart : token.kind.EndsBefore rest := by
    rw [kind]
    rcases closed with rfl | rfl | rfl | rfl | rfl <;> trivial
  have whole := later.token canonical.genuine canonical.unlined apart
  rw [canonical.genuine.lexeme_of_symbol kind, spelled] at whole
  exact whole

end

/-! ### Expressions -/

namespace Grammar

/-- Whether all tokens of a list are as printing makes them. -/
def Canonical (tokens : List Token) : Prop :=
  ∀ token ∈ tokens, token.IsCanonical

@[simp] theorem canonical_nil : Canonical [] := by
  simp [Canonical]

@[simp] theorem canonical_append {tokens more : List Token} :
    Canonical (tokens ++ more) ↔ Canonical tokens ∧ Canonical more := by
  simp [Canonical, or_imp, forall_and]

@[simp] theorem canonical_cons {token : Token} {more : List Token} :
    Canonical (token :: more) ↔ token.IsCanonical ∧ Canonical more := by
  simp [Canonical]

namespace Phrase

/-- A keyword that is a constant is written as it was read. -/
private theorem text_constant {token : Token} {word : Keyword} {value : Value}
    (genuine : token.IsGenuine) (kind : token.kind = .keyword word)
    (stands : atomExpr token = .literal value) (spelled : value.source = word.spelling) :
    (atomExpr token).text = token.lexeme := by
  rw [genuine.lexeme_of_keyword kind, stands, Expr.text, spelled]

/-- A token that is an expression by itself is written as it was read. -/
theorem text_atomExpr {token : Token} (alone : IsAtom token) (canonical : token.IsCanonical) :
    (atomExpr token).text = token.lexeme := by
  obtain ⟨genuine, _, shortest⟩ := canonical
  unfold IsAtom at alone
  split at alone
  next kind => exact text_constant genuine kind (by rw [atomExpr, kind]) rfl
  next kind => exact text_constant genuine kind (by rw [atomExpr, kind]) rfl
  next kind => exact text_constant genuine kind (by rw [atomExpr, kind]) rfl
  next kind => simp [atomExpr, kind, Expr.text]
  next kind =>
    -- A number has many spellings, and the token has the one that is printed.
    obtain ⟨x, literal⟩ := genuine.literal_of_number kind
    rw [shortest x literal]
    simp [atomExpr, kind, literal, Expr.text, Value.source, Value.text, Value.ofLiteral]
  next kind =>
    obtain ⟨body, literal, spelled⟩ := genuine.literal_of_string kind
    rw [spelled]
    simp [atomExpr, kind, literal, Expr.text, Value.source, Value.ofLiteral]
  · exact alone.elim

theorem text_binary (left : Phrase) (operator : Token) (right : Phrase) :
    (Phrase.binary left operator right).expr.text =
      left.expr.text ++ " " ++ operator.lexeme ++ " " ++ right.expr.text := by
  rw [expr]
  split <;> rfl

variable {phrase : Phrase} {level : Nat}

/-- No expression begins with an equals sign, so none can turn the operator in front of it
into another one. -/
theorem At.exists_head_text (derived : phrase.At level) (canonical : Canonical phrase.tokens) :
    ∃ c more, phrase.expr.text.toList = c :: more ∧ c ≠ '=' := by
  induction derived with
  | @atom token alone =>
    have single := canonical token (by simp [Phrase.tokens])
    -- A token that is an expression by itself is no symbol.
    rw [expr, text_atomExpr alone single]
    exact single.genuine.exists_head (by unfold IsAtom at alone; split at alone <;> simp_all)
  | parens => exact ⟨'(', _, by simp [expr, Expr.text]; rfl, by decide⟩
  | @unary operator operand kind _ _ =>
    have single := canonical operator (by simp [Phrase.tokens])
    rw [expr, Expr.text, String.toList_append]
    rcases kind with kind | kind
    · rw [single.genuine.lexeme_of_symbol kind]
      exact ⟨'!', _, rfl, by decide⟩
    · rw [single.genuine.lexeme_of_symbol kind]
      exact ⟨'-', _, rfl, by decide⟩
  | @binary level left right operator _ _ _ ih _ =>
    obtain ⟨c, more, spelled, apart⟩ := ih (canonical_append.mp canonical).1
    exact ⟨c, _, by simp [text_binary, spelled]; rfl, apart⟩
  | @assign target value equals _ _ _ ih _ =>
    obtain ⟨c, more, spelled, apart⟩ := ih (canonical_append.mp canonical).1
    rw [expr]
    cases named : target.name? with
    | some name =>
      rw [(target.expr_eq_lookup_iff name).mpr named, Expr.text] at spelled
      exact ⟨c, _, by simp [Expr.text, spelled]; rfl, apart⟩
    | none => exact ⟨c, more, spelled, apart⟩
  | tighter _ ih => exact ih canonical

theorem At.spells (derived : phrase.At level) (canonical : Canonical phrase.tokens)
    (kept : phrase.badTargets = []) {rest : List Char} {tokens : List Token}
    (separates : Separates rest) (later : Spells rest tokens) :
    Spells (phrase.expr.text.toList ++ rest) (phrase.tokens ++ tokens) := by
  induction derived generalizing rest tokens with
  | @atom token alone =>
    have single := canonical token (by simp [Phrase.tokens])
    rw [expr, text_atomExpr alone single]
    exact later.word single separates
  | @parens opening closing inner opens derived closes ih =>
    simp only [Phrase.tokens, List.cons_append, canonical_cons, canonical_append] at canonical
    obtain ⟨openingCanonical, inside, closingCanonical, _⟩ := canonical
    have ended := later.bracket closingCanonical closes ')' rfl (by simp)
    have whole := ih inside kept (separates_cons rest (by simp)) ended
    have opened := whole.bracket openingCanonical opens '(' rfl (by simp)
    simpa [expr, Expr.text, Phrase.tokens] using opened
  | @unary operator operand kind derived ih =>
    simp only [Phrase.tokens, canonical_cons] at canonical
    obtain ⟨operatorCanonical, inside⟩ := canonical
    obtain ⟨c, more, spelled, apart⟩ := derived.exists_head_text inside
    -- No blank is written after the operator, so the operand must not lengthen it.
    have ends : operator.kind.EndsBefore (operand.expr.text.toList ++ rest) := by
      rcases kind with kind | kind <;> simp [kind, TokenKind.EndsBefore, spelled, apart]
    have whole := (ih inside kept separates later).token operatorCanonical.genuine
      operatorCanonical.unlined ends
    simpa [expr, Expr.text, Phrase.tokens] using whole
  | @binary level left right operator kind first second ihLeft ihRight =>
    simp only [Phrase.tokens, canonical_append, canonical_cons] at canonical
    obtain ⟨leftCanonical, operatorCanonical, rightCanonical⟩ := canonical
    obtain ⟨leftKept, rightKept⟩ := List.append_eq_nil_iff.mp kept
    -- The text is composed from its end, each part in front of what is spelled already.
    have rightSpelled := (ihRight rightCanonical rightKept separates later).space
    have fromOperator :=
      (rightSpelled.word operatorCanonical (separates_cons _ (by simp))).space
    have whole := ihLeft leftCanonical leftKept (separates_cons _ (by simp)) fromOperator
    simpa [text_binary, Phrase.tokens] using whole
  | @assign target value equals kind first second ihTarget ihValue =>
    simp only [Phrase.tokens, canonical_append, canonical_cons] at canonical
    obtain ⟨targetCanonical, equalsCanonical, valueCanonical⟩ := canonical
    simp only [badTargets, List.append_eq_nil_iff] at kept
    obtain ⟨⟨targetKept, valueKept⟩, named⟩ := kept
    have valueSpelled := (ihValue valueCanonical valueKept separates later).space
    have fromEquals := (valueSpelled.word equalsCanonical (separates_cons _ (by simp))).space
    have whole := ihTarget targetCanonical targetKept (separates_cons _ (by simp)) fromEquals
    rw [equalsCanonical.genuine.lexeme_of_symbol kind] at whole
    -- Only an assignment to a name is kept, and its target is written as the name.
    cases name : target.name? with
    | none => simp [name] at named
    | some token =>
      rw [(target.expr_eq_lookup_iff token).mpr name] at whole
      simpa [expr, name, Expr.text, Phrase.tokens, Symbol.spelling] using whole
  | tighter _ ih => exact ih canonical kept separates later

end Phrase

/-! ### Declarations and statements -/

namespace Clause

def Prints (clause : Clause) : Prop :=
  Canonical clause.tokens → clause.badTargets = [] → ∀ {rest : List Char} {tokens : List Token},
    Spells rest tokens → Spells (clause.stmt.text.toList ++ rest) (clause.tokens ++ tokens)

/-- The text of an expression and the token that ends it. -/
private theorem spells_value {value : Phrase} {ending : Token} {symbol : Symbol} {c : Char}
    {rest : List Char} {tokens : List Token} (derived : value.At 0)
    (canonical : Canonical (value.tokens ++ [ending])) (kept : value.badTargets = [])
    (ends : ending.kind = .symbol symbol)
    (spelled : symbol = .rightParen ∧ c = ')' ∨ symbol = .semicolon ∧ c = ';')
    (later : Spells rest tokens) :
    Spells (value.expr.text.toList ++ c :: rest) (value.tokens ++ ending :: tokens) := by
  obtain ⟨valueCanonical, endingCanonical⟩ := canonical_append.mp canonical
  have single := endingCanonical ending List.mem_cons_self
  rcases spelled with ⟨rfl, rfl⟩ | ⟨rfl, rfl⟩
  · exact derived.spells valueCanonical kept (separates_cons rest (by simp))
      (later.bracket single ends ')' rfl (by simp))
  · exact derived.spells valueCanonical kept (separates_cons rest (by simp))
      (later.bracket single ends ';' rfl (by simp))

/-- A keyword in front of a blank. -/
private theorem spells_keyword {token : Token} {word : Keyword} {rest : List Char}
    {tokens : List Token} (canonical : token.IsCanonical) (kind : token.kind = .keyword word)
    (later : Spells rest tokens) :
    Spells (word.spelling.toList ++ ' ' :: rest) (token :: tokens) := by
  have whole := later.space.word canonical (separates_cons rest (by simp))
  rwa [canonical.genuine.lexeme_of_keyword kind] at whole

private theorem prints_var {keyword name semicolon : Token}
    (word : keyword.kind = .keyword .var_) (ends : semicolon.kind = .symbol .semicolon) :
    Prints (.var keyword name semicolon) := by
  intro canonical _ rest tokens later
  simp only [Clause.tokens, canonical_cons] at canonical
  obtain ⟨keywordCanonical, nameCanonical, semicolonCanonical, _⟩ := canonical
  have ended := later.bracket semicolonCanonical ends ';' rfl (by simp)
  have fromName := ended.word nameCanonical (separates_cons _ (by simp))
  have whole := spells_keyword keywordCanonical word fromName
  simpa [stmt, Stmt.text, Clause.tokens, Keyword.spelling] using whole

private theorem prints_varInit {keyword name equals semicolon : Token} {value : Phrase}
    (word : keyword.kind = .keyword .var_) (sets : equals.kind = .symbol .assign)
    (derived : value.At 0) (ends : semicolon.kind = .symbol .semicolon) :
    Prints (.varInit keyword name equals value semicolon) := by
  intro canonical kept rest tokens later
  simp only [Clause.tokens, List.cons_append, canonical_cons] at canonical
  obtain ⟨keywordCanonical, nameCanonical, equalsCanonical, valueCanonical⟩ := canonical
  have ended := (spells_value derived valueCanonical kept ends (.inr ⟨rfl, rfl⟩) later).space
  have fromEquals := (ended.word equalsCanonical (separates_cons _ (by simp))).space
  have fromName := fromEquals.word nameCanonical (separates_cons _ (by simp))
  have whole := spells_keyword keywordCanonical word fromName
  rw [equalsCanonical.genuine.lexeme_of_symbol sets] at whole
  simpa [stmt, Stmt.text, Clause.tokens, Keyword.spelling, Symbol.spelling] using whole

private theorem prints_expression {value : Phrase} {semicolon : Token} (derived : value.At 0)
    (ends : semicolon.kind = .symbol .semicolon) : Prints (.expression value semicolon) := by
  intro canonical kept rest tokens later
  have whole := spells_value derived canonical kept ends (.inr ⟨rfl, rfl⟩) later
  simpa [stmt, Stmt.text, Clause.tokens] using whole

private theorem prints_print {keyword semicolon : Token} {value : Phrase}
    (word : keyword.kind = .keyword .print_) (derived : value.At 0)
    (ends : semicolon.kind = .symbol .semicolon) : Prints (.print keyword value semicolon) := by
  intro canonical kept rest tokens later
  simp only [Clause.tokens, List.cons_append, canonical_cons] at canonical
  obtain ⟨keywordCanonical, valueCanonical⟩ := canonical
  have ended := spells_value derived valueCanonical kept ends (.inr ⟨rfl, rfl⟩) later
  have whole := spells_keyword keywordCanonical word ended
  simpa [stmt, Stmt.text, Clause.tokens, Keyword.spelling] using whole

/-- The statements of a block, each of them after a blank. -/
private theorem spells_body {body : List Clause} (each : ∀ clause ∈ body, clause.Prints)
    (canonical : Canonical (allTokens body)) (kept : allBadTargets body = []) {rest : List Char}
    {tokens : List Token} (later : Spells rest tokens) :
    Spells ((Stmt.bodyText (allStmts body)).toList ++ rest) (allTokens body ++ tokens) := by
  induction body with
  | nil => simpa [allStmts, Stmt.bodyText, allTokens] using later
  | cons clause body ih =>
    obtain ⟨firstCanonical, restCanonical⟩ := canonical_append.mp canonical
    obtain ⟨firstKept, restKept⟩ := List.append_eq_nil_iff.mp kept
    have others := ih (fun other member => each other (.tail clause member)) restCanonical restKept
    have whole := (each clause List.mem_cons_self firstCanonical firstKept others).space
    simpa [allStmts, Stmt.bodyText, allTokens] using whole

private theorem prints_block {opening closing : Token} {body : List Clause}
    (opens : opening.kind = .symbol .leftBrace) (closes : closing.kind = .symbol .rightBrace)
    (each : ∀ clause ∈ body, clause.Prints) : Prints (.block opening body closing) := by
  intro canonical kept rest tokens later
  simp only [Clause.tokens, List.cons_append, canonical_cons, canonical_append] at canonical
  obtain ⟨openingCanonical, bodyCanonical, closingCanonical, _⟩ := canonical
  have ended := later.bracket closingCanonical closes '\x7d' rfl (by simp)
  -- An empty block is written without the blank in front of its closing brace.
  cases body with
  | nil =>
    have whole := ended.bracket openingCanonical opens '\x7b' rfl (by simp)
    simpa [stmt, allStmts, Stmt.text, Stmt.bodyText, Clause.tokens, allTokens] using whole
  | cons clause body =>
    have inside := spells_body each bodyCanonical kept ended.space
    have whole := inside.bracket openingCanonical opens '\x7b' rfl (by simp)
    simpa [stmt, allStmts, Stmt.text, Clause.tokens] using whole

/-- The condition of an `if`, in front of its branch. -/
private theorem spells_condition {keyword opening closing : Token} {condition : Phrase}
    {rest : List Char} {tokens : List Token} (word : keyword.kind = .keyword .if_)
    (opens : opening.kind = .symbol .leftParen) (tested : condition.At 0)
    (closes : closing.kind = .symbol .rightParen)
    (canonical : Canonical (keyword :: opening :: (condition.tokens ++ [closing])))
    (kept : condition.badTargets = []) (later : Spells rest tokens) :
    Spells ("if (".toList ++ (condition.expr.text.toList ++ ')' :: ' ' :: rest))
      (keyword :: opening :: (condition.tokens ++ closing :: tokens)) := by
  simp only [canonical_cons] at canonical
  obtain ⟨keywordCanonical, openingCanonical, valueCanonical⟩ := canonical
  have ended := spells_value tested valueCanonical kept closes (.inl ⟨rfl, rfl⟩) later.space
  have opened := ended.bracket openingCanonical opens '(' rfl (by simp)
  exact spells_keyword keywordCanonical word opened

private theorem prints_ifThen {keyword opening closing : Token} {condition : Phrase}
    {consequent : Clause} (word : keyword.kind = .keyword .if_)
    (opens : opening.kind = .symbol .leftParen) (tested : condition.At 0)
    (closes : closing.kind = .symbol .rightParen) (branch : consequent.Prints) :
    Prints (.ifThen keyword opening condition closing consequent) := by
  intro canonical kept rest tokens later
  have parts : (Clause.ifThen keyword opening condition closing consequent).tokens =
      keyword :: opening :: (condition.tokens ++ [closing]) ++ consequent.tokens := by
    simp [Clause.tokens]
  rw [parts] at canonical
  obtain ⟨conditionCanonical, branchCanonical⟩ := canonical_append.mp canonical
  obtain ⟨conditionKept, branchKept⟩ := List.append_eq_nil_iff.mp kept
  have whole := spells_condition word opens tested closes conditionCanonical conditionKept
    (branch branchCanonical branchKept later)
  simpa [stmt, Stmt.text, Clause.tokens] using whole

private theorem prints_ifElse {keyword opening closing otherwise : Token} {condition : Phrase}
    {consequent alternative : Clause} (word : keyword.kind = .keyword .if_)
    (opens : opening.kind = .symbol .leftParen) (tested : condition.At 0)
    (closes : closing.kind = .symbol .rightParen) (elseWord : otherwise.kind = .keyword .else_)
    (branch : consequent.Prints) (otherBranch : alternative.Prints) :
    Prints (.ifElse keyword opening condition closing consequent otherwise alternative) := by
  intro canonical kept rest tokens later
  have parts : (Clause.ifElse keyword opening condition closing consequent otherwise
      alternative).tokens = keyword :: opening :: (condition.tokens ++ [closing]) ++
        (consequent.tokens ++ otherwise :: alternative.tokens) := by
    simp [Clause.tokens]
  rw [parts] at canonical
  obtain ⟨conditionCanonical, branchesCanonical⟩ := canonical_append.mp canonical
  obtain ⟨branchCanonical, fromElseCanonical⟩ := canonical_append.mp branchesCanonical
  obtain ⟨elseCanonical, otherCanonical⟩ := canonical_cons.mp fromElseCanonical
  simp only [badTargets, List.append_eq_nil_iff] at kept
  obtain ⟨⟨conditionKept, branchKept⟩, otherKept⟩ := kept
  have other := otherBranch otherCanonical otherKept later
  -- The text is composed from its end: the other branch, `else`, the branch, the condition.
  have fromElse := (spells_keyword elseCanonical elseWord other).space
  have whole := spells_condition word opens tested closes conditionCanonical conditionKept
    (branch branchCanonical branchKept fromElse)
  simpa [stmt, Stmt.text, Clause.tokens, Keyword.spelling] using whole

/-- The text of a clause spells its tokens, whatever follows. -/
theorem From.prints {nonterminal : Nonterminal} {clause : Clause}
    (derived : clause.From nonterminal) : clause.Prints := by
  induction derived with
  | var word _ ends => exact prints_var word ends
  | varInit word _ sets value ends => exact prints_varInit word sets value ends
  | statement _ ih => exact ih
  | expression value ends => exact prints_expression value ends
  | print word value ends => exact prints_print word value ends
  | block opens _ closes each => exact prints_block opens closes each
  | ifThen word opens tested closes _ branch => exact prints_ifThen word opens tested closes branch
  | ifElse word opens tested closes _ _ elseWord _ branch otherBranch =>
    exact prints_ifElse word opens tested closes elseWord branch otherBranch

end Clause

/-- The text of a program spells its tokens. -/
theorem spells_program {clauses : List Clause}
    (derived : ∀ clause ∈ clauses, clause.From .declaration)
    (canonical : Canonical (Clause.allTokens clauses))
    (kept : Clause.allBadTargets clauses = []) :
    Spells (Program.text (Clause.allStmts clauses)).toList (Clause.allTokens clauses) := by
  induction clauses with
  | nil => exact .nil
  | cons clause clauses ih =>
    obtain ⟨firstCanonical, restCanonical⟩ := canonical_append.mp canonical
    obtain ⟨firstKept, restKept⟩ := List.append_eq_nil_iff.mp kept
    have others := ih (fun other member => derived other (.tail clause member)) restCanonical
      restKept
    have whole := (derived clause List.mem_cons_self).prints firstCanonical firstKept others.newline
    simpa [Clause.allStmts, Clause.allTokens, Program.text_cons] using whole

end Grammar
end BlockScript
