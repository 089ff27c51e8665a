import BlockScript.Proofs.Printing.Text

/-!
# The derivation that is read back

What is read from the text of a tree is not what the tree was read from: rejected
assignments are gone, and so are lines and the spelling of numbers. This module makes the
derivation of the text from the one of the tree.

## Main results

`Clause.canonical_allPrinted`: its tokens are as printing makes them.
`Clause.allBadTargets_printed`: no assignment of it is rejected.
`Clause.From.readsBack`: it is a derivation, and its tree has the same text. If all numbers
are finite, its tree is the same but for lines. An infinite number has the text of a name,
and is read back as that name.

## Proof strategy

What is read back is a function of the derivation. Everything about it goes by induction on
the derivation, and comes down to what is read back for one token.
-/

namespace BlockScript

/-- The token that is read back. -/
def Token.printed (token : Token) : Token :=
  match token.kind, token.literal with
  | .number, some (.number x) =>
    if x.isFinite then ⟨.number, Number.text x, some (.number x), 0⟩
    else ⟨.identifier, Number.text x, none, 0⟩
  | _, _ => token.unlined

/-! ### Tokens -/

namespace Token

variable {token : Token}

theorem printed_of_kind (noNumber : token.kind ≠ .number) : token.printed = token.unlined := by
  unfold printed
  split
  next kind _ => exact absurd kind noNumber
  · rfl

theorem kind_printed (noNumber : token.kind ≠ .number) : token.printed.kind = token.kind := by
  rw [printed_of_kind noNumber]
  rfl

theorem kind_printed_of {kind : TokenKind} (same : token.kind = kind) (noNumber : kind ≠ .number) :
    token.printed.kind = kind := by
  subst same
  exact kind_printed noNumber

theorem IsGenuine.kind_of_number {x : Float} (genuine : token.IsGenuine)
    (literal : token.literal = some (.number x)) : token.kind = .number := by
  unfold IsGenuine at genuine
  rw [literal] at genuine
  generalize token.lexeme.toList = text, token.kind = kind at genuine ⊢
  cases genuine
  rfl

private theorem canonical_numeral {whole fraction : List Char} {lexeme : String} (line : Nat) :
    IsCanonical (printed
      ⟨.number, lexeme, some (.number (Number.ofNumeral whole fraction)), line⟩) := by
  cases finite : (Number.ofNumeral whole fraction).isFinite with
  | true =>
    -- The shortest text of a number is a numeral, though not the one that was read.
    obtain ⟨digits, decimals, form, written, value⟩ := Number.exists_numeral_text finite
    have short := Lexeme.number form
    rw [value, ← written] at short
    refine ⟨?_, by simp [printed, finite], ?_⟩
    · simpa [printed, finite, IsGenuine] using short
    · intro x literal
      obtain rfl : Number.ofNumeral whole fraction = x := by simpa [printed, finite] using literal
      simp [printed, finite]
  | false =>
    -- The text of infinity is a name that is not reserved.
    have word : Lexeme .identifier none ['i', 'n', 'f'] :=
      .identifier rfl (List.all_eq_true.mp rfl) (fun word => by cases word <;> decide)
    refine ⟨?_, by simp [printed, finite], by simp [printed, finite]⟩
    simpa [printed, finite, IsGenuine, Number.text_of_infinite finite] using word

/-- A number token is written as a numeral or, if it is infinite, as a word. -/
theorem IsGenuine.printed (genuine : token.IsGenuine) : token.printed.IsCanonical := by
  by_cases kind : token.kind = .number
  · obtain ⟨_, lexeme, literal, line⟩ := token
    obtain rfl := kind
    unfold IsGenuine at genuine
    generalize lexeme.toList = text at genuine
    cases genuine
    exact canonical_numeral line
  · rw [printed_of_kind kind]
    exact ⟨genuine, rfl, fun x literal => absurd (genuine.kind_of_number literal) kind⟩

end Token

/-- Whether all numbers among some values are finite. -/
def AllFinite (values : List Value) : Prop :=
  ∀ x : Float, .number x ∈ values → x.isFinite = true

theorem allFinite_append {values more : List Value} :
    AllFinite (values ++ more) ↔ AllFinite values ∧ AllFinite more := by
  simp only [AllFinite, List.mem_append, or_imp, forall_and]

namespace Grammar

/-- Whether all tokens of a list are tokens of a text. -/
def Genuine (tokens : List Token) : Prop :=
  ∀ token ∈ tokens, token.IsGenuine

@[simp] theorem genuine_append {tokens more : List Token} :
    Genuine (tokens ++ more) ↔ Genuine tokens ∧ Genuine more := by
  simp [Genuine, or_imp, forall_and]

@[simp] theorem genuine_cons {token : Token} {more : List Token} :
    Genuine (token :: more) ↔ token.IsGenuine ∧ Genuine more := by
  simp [Genuine]

theorem ne_number_of_mem_operators {kind : TokenKind} {level : Nat}
    (member : kind ∈ operators level) : kind ≠ .number := by
  rintro rfl
  unfold operators at member
  split at member <;> simp at member

/-! ### Expressions -/

namespace Phrase

/-- The derivation that is read back. An assignment that was rejected is its left side. -/
def printed : Phrase → Phrase
  | atom token => .atom token.printed
  | parens opening inner closing => .parens opening.printed inner.printed closing.printed
  | unary operator operand => .unary operator.printed operand.printed
  | binary left operator right => .binary left.printed operator.printed right.printed
  | assign target equals value =>
    if target.name?.isSome then .assign target.printed equals.printed value.printed
    else target.printed

theorem name?_printed {phrase : Phrase} {name : Token} (named : phrase.name? = some name) :
    phrase.printed.name? = some name.unlined := by
  cases phrase with
  | atom token =>
    simp only [name?] at named
    split at named
    next kind =>
      obtain rfl := Option.some.inj named
      have noNumber : token.kind ≠ .number := by simp [kind]
      rw [printed, name?, Token.kind_printed noNumber, if_pos kind,
        Token.printed_of_kind noNumber]
    · cases named
  | parens | unary | binary | assign => cases named

theorem badTargets_printed (phrase : Phrase) : phrase.printed.badTargets = [] := by
  induction phrase with
  | atom => rfl
  | parens _ _ _ ih | unary _ _ ih => exact ih
  | binary _ _ _ ihLeft ihRight => simp [printed, badTargets, ihLeft, ihRight]
  | assign target equals value ihTarget ihValue =>
    -- An assignment is kept if its target is a name, and this is still one.
    rw [printed]
    split
    next given =>
      obtain ⟨name, named⟩ := Option.isSome_iff_exists.mp given
      simp [badTargets, ihTarget, ihValue, name?_printed named]
    · exact ihTarget

theorem canonical_printed {phrase : Phrase} (genuine : Genuine phrase.tokens) :
    Canonical phrase.printed.tokens := by
  induction phrase with
  | atom token =>
    have single := (genuine token List.mem_cons_self).printed
    simpa [Canonical, printed, tokens] using single
  | parens opening inner closing ih =>
    simp only [tokens, List.cons_append, genuine_cons, genuine_append] at genuine
    obtain ⟨opens, inside, closes, _⟩ := genuine
    simp [printed, tokens, opens.printed, ih inside, closes.printed]
  | unary operator operand ih =>
    obtain ⟨first, rest⟩ := genuine_cons.mp genuine
    exact canonical_cons.mpr ⟨first.printed, ih rest⟩
  | binary left operator right ihLeft ihRight =>
    obtain ⟨first, rest⟩ := genuine_append.mp genuine
    obtain ⟨middle, last⟩ := genuine_cons.mp rest
    exact canonical_append.mpr ⟨ihLeft first, canonical_cons.mpr ⟨middle.printed, ihRight last⟩⟩
  | assign target equals value ihTarget ihValue =>
    obtain ⟨first, rest⟩ := genuine_append.mp genuine
    obtain ⟨middle, last⟩ := genuine_cons.mp rest
    rw [printed]
    split
    · exact canonical_append.mpr
        ⟨ihTarget first, canonical_cons.mpr ⟨middle.printed, ihValue last⟩⟩
    · exact ihTarget first

theorem isAtom_printed {token : Token} (alone : IsAtom token) (genuine : token.IsGenuine) :
    IsAtom token.printed := by
  by_cases kind : token.kind = .number
  · obtain ⟨x, literal⟩ := genuine.literal_of_number kind
    simp only [Token.printed, kind, literal]
    split <;> simp [IsAtom]
  · rw [Token.printed_of_kind kind]
    exact alone

variable {phrase : Phrase} {level : Nat}

theorem At.printed (derived : phrase.At level) (genuine : Genuine phrase.tokens) :
    phrase.printed.At level := by
  induction derived with
  | @atom token alone =>
    exact .atom (isAtom_printed alone (genuine token List.mem_cons_self))
  | @parens opening closing inner opens derived closes ih =>
    simp only [tokens, List.cons_append, genuine_cons, genuine_append] at genuine
    exact .parens (Token.kind_printed_of opens (by simp)) (ih genuine.2.1)
      (Token.kind_printed_of closes (by simp))
  | @unary operator operand kind derived ih =>
    refine .unary ?_ (ih (genuine_cons.mp genuine).2)
    rcases kind with kind | kind
    · exact .inl (Token.kind_printed_of kind (by simp))
    · exact .inr (Token.kind_printed_of kind (by simp))
  | @binary level left right operator kind first second ihLeft ihRight =>
    obtain ⟨leftGenuine, rest⟩ := genuine_append.mp genuine
    refine .binary ?_ (ihLeft leftGenuine) (ihRight (genuine_cons.mp rest).2)
    rwa [Token.kind_printed (ne_number_of_mem_operators kind)]
  | @assign target value equals kind first second ihTarget ihValue =>
    obtain ⟨targetGenuine, rest⟩ := genuine_append.mp genuine
    rw [Phrase.printed]
    split
    · exact .assign (Token.kind_printed_of kind (by simp)) (ihTarget targetGenuine)
        (ihValue (genuine_cons.mp rest).2)
    · -- What is left of a rejected assignment binds more tightly than one.
      exact .tighter (ihTarget targetGenuine)
  | tighter _ ih => exact .tighter (ih genuine)

theorem atomExpr_unlined (token : Token) :
    atomExpr token.unlined = (atomExpr token).map Token.unlined := by
  unfold atomExpr Token.unlined
  dsimp only
  split <;> rfl

/-- The text of a tree does not show what is changed in its derivation. -/
theorem text_atomExpr_printed {token : Token} (genuine : token.IsGenuine) :
    (atomExpr token.printed).text = (atomExpr token).text := by
  by_cases kind : token.kind = .number
  · obtain ⟨x, literal⟩ := genuine.literal_of_number kind
    -- The text of a number stays the same even if it is read back as a name.
    have text : (atomExpr token).text = Number.text x := by
      simp [atomExpr, kind, literal, Expr.text, Value.source, Value.text, Value.ofLiteral]
    simp only [text, Token.printed, kind, literal]
    split <;> simp [atomExpr, Expr.text, Value.source, Value.text, Value.ofLiteral]
  · rw [Token.printed_of_kind kind, atomExpr_unlined, Expr.text_map Token.lexeme_unlined]

theorem lexeme_printed {token : Token} (noNumber : token.kind ≠ .number) :
    token.printed.lexeme = token.lexeme := by
  rw [Token.printed_of_kind noNumber]
  rfl

theorem At.text_printed (derived : phrase.At level) (genuine : Genuine phrase.tokens) :
    phrase.printed.expr.text = phrase.expr.text := by
  induction derived with
  | @atom token alone => exact text_atomExpr_printed (genuine token List.mem_cons_self)
  | @parens opening closing inner opens derived closes ih =>
    simp only [tokens, List.cons_append, genuine_cons, genuine_append] at genuine
    rw [Phrase.printed, expr, expr, Expr.text, Expr.text, ih genuine.2.1]
  | @unary operator operand kind derived ih =>
    have noNumber : operator.kind ≠ .number := by rcases kind with kind | kind <;> simp [kind]
    rw [Phrase.printed, expr, expr, Expr.text, Expr.text, ih (genuine_cons.mp genuine).2,
      lexeme_printed noNumber]
  | @binary level left right operator kind first second ihLeft ihRight =>
    obtain ⟨leftGenuine, rest⟩ := genuine_append.mp genuine
    rw [Phrase.printed, text_binary, text_binary, ihLeft leftGenuine,
      ihRight (genuine_cons.mp rest).2, lexeme_printed (ne_number_of_mem_operators kind)]
  | @assign target value equals kind first second ihTarget ihValue =>
    obtain ⟨targetGenuine, rest⟩ := genuine_append.mp genuine
    cases named : target.name? with
    | some name =>
      simp only [Phrase.printed, expr, named, name?_printed named, Option.isSome_some, if_true,
        Expr.text, ihValue (genuine_cons.mp rest).2]
      rfl
    | none =>
      simp only [Phrase.printed, expr, named, Option.isSome_none]
      exact ihTarget targetGenuine
  | tighter _ ih => exact ih genuine

theorem literals_binary (left : Phrase) (operator : Token) (right : Phrase) :
    (Phrase.binary left operator right).expr.literals =
      left.expr.literals ++ right.expr.literals := by
  rw [expr]
  split <;> rfl

/-- What is read back is the same but for lines if no number is lost. -/
theorem At.expr_printed (derived : phrase.At level) (genuine : Genuine phrase.tokens)
    (finite : AllFinite phrase.expr.literals) :
    phrase.printed.expr = phrase.expr.map Token.unlined := by
  induction derived with
  | @atom token alone =>
    by_cases kind : token.kind = .number
    · obtain ⟨x, literal⟩ := (genuine token List.mem_cons_self).literal_of_number kind
      have tree : atomExpr token = .literal (.number x) := by
        simp [atomExpr, kind, literal, Value.ofLiteral]
      -- A finite number is read back as the same number.
      have whole := finite x (by simp [expr, tree, Expr.literals])
      rw [Phrase.printed, expr, expr, tree]
      simp [Token.printed, kind, literal, whole, atomExpr, Value.ofLiteral, Expr.map]
    · rw [Phrase.printed, expr, expr, Token.printed_of_kind kind, atomExpr_unlined]
  | @parens opening closing inner opens derived closes ih =>
    simp only [tokens, List.cons_append, genuine_cons, genuine_append] at genuine
    rw [Phrase.printed, expr, expr, ih genuine.2.1 finite, Expr.map]
  | @unary operator operand kind derived ih =>
    have noNumber : operator.kind ≠ .number := by rcases kind with kind | kind <;> simp [kind]
    rw [Phrase.printed, expr, expr, ih (genuine_cons.mp genuine).2 finite, Expr.map,
      Token.printed_of_kind noNumber]
  | @binary level left right operator kind first second ihLeft ihRight =>
    obtain ⟨leftGenuine, rest⟩ := genuine_append.mp genuine
    have noNumber := ne_number_of_mem_operators kind
    rw [literals_binary] at finite
    obtain ⟨leftFinite, rightFinite⟩ := allFinite_append.mp finite
    have left := ihLeft leftGenuine leftFinite
    have right := ihRight (genuine_cons.mp rest).2 rightFinite
    -- Whether the operator is a logical one depends on its kind only.
    rw [Phrase.printed, expr, expr, Token.kind_printed noNumber, left, right,
      Token.printed_of_kind noNumber]
    split <;> rfl
  | @assign target value equals kind first second ihTarget ihValue =>
    obtain ⟨targetGenuine, rest⟩ := genuine_append.mp genuine
    cases named : target.name? with
    | some name =>
      simp only [expr, named] at finite
      have whole := ihValue (genuine_cons.mp rest).2 finite
      simp only [Phrase.printed, expr, named, name?_printed named, Option.isSome_some, if_true,
        whole, Expr.map]
    | none =>
      simp only [expr, named] at finite
      simp only [Phrase.printed, expr, named, Option.isSome_none]
      exact ihTarget targetGenuine finite
  | tighter _ ih => exact ih genuine finite

end Phrase

/-! ### Declarations and statements -/

namespace Clause

mutual

def printed : Clause → Clause
  | var keyword name semicolon => .var keyword.printed name.printed semicolon.printed
  | varInit keyword name equals value semicolon =>
    .varInit keyword.printed name.printed equals.printed value.printed semicolon.printed
  | expression value semicolon => .expression value.printed semicolon.printed
  | print keyword value semicolon => .print keyword.printed value.printed semicolon.printed
  | block opening body closing => .block opening.printed (allPrinted body) closing.printed
  | ifThen keyword opening condition closing consequent =>
    .ifThen keyword.printed opening.printed condition.printed closing.printed consequent.printed
  | ifElse keyword opening condition closing consequent otherwise alternative =>
    .ifElse keyword.printed opening.printed condition.printed closing.printed consequent.printed
      otherwise.printed alternative.printed

def allPrinted : List Clause → List Clause
  | [] => []
  | first :: rest => first.printed :: allPrinted rest

end

variable {nonterminal : Nonterminal} {clause : Clause}

theorem isOpen_printed (clause : Clause) : clause.printed.isOpen = clause.isOpen := by
  match clause with
  | .var .. | .varInit .. | .expression .. | .print .. | .block .. | .ifThen .. => rfl
  | .ifElse _ _ _ _ _ _ alternative => exact isOpen_printed alternative

mutual

theorem canonical_printed (clause : Clause) (genuine : Genuine clause.tokens) :
    Canonical clause.printed.tokens := by
  match clause with
  | .var keyword name semicolon =>
    simp only [tokens, genuine_cons] at genuine
    obtain ⟨word, named, ends, _⟩ := genuine
    simp [printed, tokens, word.printed, named.printed, ends.printed]
  | .varInit keyword name equals value semicolon =>
    simp only [tokens, List.cons_append, genuine_cons, genuine_append] at genuine
    obtain ⟨word, named, sets, inside, ends, _⟩ := genuine
    simp [printed, tokens, word.printed, named.printed, sets.printed,
      Phrase.canonical_printed inside, ends.printed]
  | .expression value semicolon =>
    simp only [tokens, genuine_cons, genuine_append] at genuine
    obtain ⟨inside, ends, _⟩ := genuine
    simp [printed, tokens, Phrase.canonical_printed inside, ends.printed]
  | .print keyword value semicolon =>
    simp only [tokens, List.cons_append, genuine_cons, genuine_append] at genuine
    obtain ⟨word, inside, ends, _⟩ := genuine
    simp [printed, tokens, word.printed, Phrase.canonical_printed inside, ends.printed]
  | .block opening body closing =>
    simp only [tokens, List.cons_append, genuine_cons, genuine_append] at genuine
    obtain ⟨opens, inside, closes, _⟩ := genuine
    simp [printed, tokens, opens.printed, canonical_allPrinted body inside, closes.printed]
  | .ifThen keyword opening condition closing consequent =>
    simp only [tokens, List.cons_append, genuine_cons, genuine_append] at genuine
    obtain ⟨word, opens, inside, closes, branch⟩ := genuine
    simp [printed, tokens, word.printed, opens.printed, Phrase.canonical_printed inside,
      closes.printed, canonical_printed consequent branch]
  | .ifElse keyword opening condition closing consequent otherwise alternative =>
    simp only [tokens, List.cons_append, List.append_assoc, genuine_cons, genuine_append]
      at genuine
    obtain ⟨word, opens, inside, closes, branch, elseWord, other⟩ := genuine
    simp [printed, tokens, word.printed, opens.printed, Phrase.canonical_printed inside,
      closes.printed, canonical_printed consequent branch, elseWord.printed,
      canonical_printed alternative other]

theorem canonical_allPrinted (clauses : List Clause) (genuine : Genuine (allTokens clauses)) :
    Canonical (allTokens (allPrinted clauses)) := by
  match clauses with
  | [] => exact canonical_nil
  | first :: rest =>
    obtain ⟨here, later⟩ := genuine_append.mp genuine
    exact canonical_append.mpr ⟨canonical_printed first here, canonical_allPrinted rest later⟩

end

mutual

theorem badTargets_printed (clause : Clause) : clause.printed.badTargets = [] := by
  match clause with
  | .var .. => rfl
  | .varInit _ _ _ value _ => exact value.badTargets_printed
  | .expression value _ => exact value.badTargets_printed
  | .print _ value _ => exact value.badTargets_printed
  | .block _ body _ => exact allBadTargets_printed body
  | .ifThen _ _ condition _ consequent =>
    simp [printed, badTargets, condition.badTargets_printed, badTargets_printed consequent]
  | .ifElse _ _ condition _ consequent _ alternative =>
    simp [printed, badTargets, condition.badTargets_printed, badTargets_printed consequent,
      badTargets_printed alternative]

theorem allBadTargets_printed (clauses : List Clause) :
    allBadTargets (allPrinted clauses) = [] := by
  match clauses with
  | [] => rfl
  | first :: rest =>
    simp [allPrinted, allBadTargets, badTargets_printed first, allBadTargets_printed rest]

end

/-- What is to be proved of a clause: what is read back from it. -/
structure ReadsBack (nonterminal : Nonterminal) (clause : Clause) : Prop where
  derived : clause.printed.From nonterminal
  text : clause.printed.stmt.text = clause.stmt.text
  same : AllFinite clause.stmt.literals → clause.printed.stmt = clause.stmt.map Token.unlined

private theorem readsBack_var {keyword name semicolon : Token}
    (word : keyword.kind = .keyword .var_) (named : name.kind = .identifier)
    (ends : semicolon.kind = .symbol .semicolon) :
    ReadsBack .declaration (.var keyword name semicolon) := by
  have noNumber : name.kind ≠ .number := by simp [named]
  refine ⟨.var ?_ ?_ ?_, ?_, fun _ => ?_⟩
  · exact Token.kind_printed_of word (by simp)
  · exact Token.kind_printed_of named (by simp)
  · exact Token.kind_printed_of ends (by simp)
  · simp [printed, stmt, Stmt.text, Phrase.lexeme_printed noNumber]
  · simp [printed, stmt, Stmt.map, Token.printed_of_kind noNumber]

private theorem readsBack_varInit {keyword name equals semicolon : Token} {value : Phrase}
    (word : keyword.kind = .keyword .var_) (named : name.kind = .identifier)
    (sets : equals.kind = .symbol .assign) (derived : value.At 0)
    (ends : semicolon.kind = .symbol .semicolon) (genuine : Genuine value.tokens) :
    ReadsBack .declaration (.varInit keyword name equals value semicolon) := by
  have noNumber : name.kind ≠ .number := by simp [named]
  refine ⟨.varInit ?_ ?_ ?_ (derived.printed genuine) ?_, ?_, fun finite => ?_⟩
  · exact Token.kind_printed_of word (by simp)
  · exact Token.kind_printed_of named (by simp)
  · exact Token.kind_printed_of sets (by simp)
  · exact Token.kind_printed_of ends (by simp)
  · simp [printed, stmt, Stmt.text, Phrase.lexeme_printed noNumber, derived.text_printed genuine]
  · simp [printed, stmt, Stmt.map, Token.printed_of_kind noNumber,
      derived.expr_printed genuine finite]

private theorem readsBack_expression {value : Phrase} {semicolon : Token}
    (derived : value.At 0) (ends : semicolon.kind = .symbol .semicolon)
    (genuine : Genuine value.tokens) : ReadsBack .statement (.expression value semicolon) := by
  refine ⟨.expression (derived.printed genuine) ?_, ?_, fun finite => ?_⟩
  · exact Token.kind_printed_of ends (by simp)
  · simp [printed, stmt, Stmt.text, derived.text_printed genuine]
  · simp [printed, stmt, Stmt.map, derived.expr_printed genuine finite]

private theorem readsBack_print {keyword semicolon : Token} {value : Phrase}
    (word : keyword.kind = .keyword .print_) (derived : value.At 0)
    (ends : semicolon.kind = .symbol .semicolon) (genuine : Genuine value.tokens) :
    ReadsBack .statement (.print keyword value semicolon) := by
  have noNumber : keyword.kind ≠ .number := by simp [word]
  refine ⟨.print ?_ (derived.printed genuine) ?_, ?_, fun finite => ?_⟩
  · exact Token.kind_printed_of word (by simp)
  · exact Token.kind_printed_of ends (by simp)
  · simp [printed, stmt, Stmt.text, derived.text_printed genuine]
  · simp [printed, stmt, Stmt.map, Token.printed_of_kind noNumber,
      derived.expr_printed genuine finite]

structure AllReadBack (clauses : List Clause) : Prop where
  derived : ∀ clause ∈ allPrinted clauses, clause.From .declaration
  text : Stmt.bodyText (allStmts (allPrinted clauses)) = Stmt.bodyText (allStmts clauses)
  programText : Program.text (allStmts (allPrinted clauses)) = Program.text (allStmts clauses)
  same : AllFinite (Stmt.allLiterals (allStmts clauses)) →
    allStmts (allPrinted clauses) = Stmt.mapAll Token.unlined (allStmts clauses)

theorem allReadBack {clauses : List Clause}
    (each : ∀ clause ∈ clauses, clause.ReadsBack .declaration) : AllReadBack clauses := by
  induction clauses with
  | nil => exact ⟨by simp [allPrinted], rfl, rfl, fun _ => rfl⟩
  | cons clause clauses ih =>
    have first := each clause List.mem_cons_self
    have later := ih (fun other member => each other (.tail clause member))
    refine ⟨?_, ?_, ?_, fun finite => ?_⟩
    · intro other member
      rcases List.mem_cons.mp member with rfl | member
      · exact first.derived
      · exact later.derived other member
    · simp only [allPrinted, allStmts, Stmt.bodyText, first.text, later.text]
    · simp only [allPrinted, allStmts, Program.text_cons, first.text, later.programText]
    · obtain ⟨firstFinite, laterFinite⟩ := allFinite_append.mp finite
      simp only [allPrinted, allStmts, Stmt.mapAll, first.same firstFinite,
        later.same laterFinite]

private theorem readsBack_block {opening closing : Token} {body : List Clause}
    (opens : opening.kind = .symbol .leftBrace) (closes : closing.kind = .symbol .rightBrace)
    (inside : AllReadBack body) : ReadsBack .statement (.block opening body closing) := by
  refine ⟨.block ?_ inside.derived ?_, ?_, fun finite => ?_⟩
  · exact Token.kind_printed_of opens (by simp)
  · exact Token.kind_printed_of closes (by simp)
  -- Whether a block is empty decides on its blanks.
  · have empty : (allStmts (allPrinted body)).isEmpty = (allStmts body).isEmpty := by
      cases body <;> rfl
    simp only [printed, stmt, Stmt.text, inside.text, empty]
  · simp only [printed, stmt, Stmt.map, inside.same finite]

private theorem readsBack_ifThen {keyword opening closing : Token} {condition : Phrase}
    {consequent : Clause} (word : keyword.kind = .keyword .if_)
    (opens : opening.kind = .symbol .leftParen) (tested : condition.At 0)
    (closes : closing.kind = .symbol .rightParen) (genuine : Genuine condition.tokens)
    (branch : consequent.ReadsBack .statement) :
    ReadsBack .statement (.ifThen keyword opening condition closing consequent) := by
  refine ⟨.ifThen ?_ ?_ (tested.printed genuine) ?_ branch.derived, ?_, fun finite => ?_⟩
  · exact Token.kind_printed_of word (by simp)
  · exact Token.kind_printed_of opens (by simp)
  · exact Token.kind_printed_of closes (by simp)
  · simp only [printed, stmt, Stmt.text, tested.text_printed genuine, branch.text]
  · obtain ⟨conditionFinite, branchFinite⟩ := allFinite_append.mp finite
    have conditionSame := tested.expr_printed genuine conditionFinite
    simp only [printed, stmt, Stmt.map, conditionSame, branch.same branchFinite]

private theorem readsBack_ifElse {keyword opening closing otherwise : Token}
    {condition : Phrase} {consequent alternative : Clause} (word : keyword.kind = .keyword .if_)
    (opens : opening.kind = .symbol .leftParen) (tested : condition.At 0)
    (closes : closing.kind = .symbol .rightParen) (genuine : Genuine condition.tokens)
    (branch : consequent.ReadsBack .statement) (nearest : consequent.isOpen = false)
    (elseWord : otherwise.kind = .keyword .else_) (other : alternative.ReadsBack .statement) :
    ReadsBack .statement
      (.ifElse keyword opening condition closing consequent otherwise alternative) := by
  refine ⟨.ifElse ?_ ?_ (tested.printed genuine) ?_ branch.derived ?_ ?_ other.derived, ?_,
    fun finite => ?_⟩
  · exact Token.kind_printed_of word (by simp)
  · exact Token.kind_printed_of opens (by simp)
  · exact Token.kind_printed_of closes (by simp)
  · rwa [isOpen_printed]
  · exact Token.kind_printed_of elseWord (by simp)
  · simp only [printed, stmt, Stmt.text, tested.text_printed genuine, branch.text, other.text]
  · obtain ⟨firstFinite, otherFinite⟩ := allFinite_append.mp finite
    obtain ⟨conditionFinite, branchFinite⟩ := allFinite_append.mp firstFinite
    have conditionSame := tested.expr_printed genuine conditionFinite
    simp only [printed, stmt, Stmt.map, conditionSame, branch.same branchFinite,
      other.same otherFinite]

theorem genuine_of_mem {clauses : List Clause} (genuine : Genuine (allTokens clauses))
    (member : clause ∈ clauses) : Genuine clause.tokens := by
  induction clauses with
  | nil => cases member
  | cons first rest ih =>
    obtain ⟨here, later⟩ := genuine_append.mp genuine
    rcases List.mem_cons.mp member with rfl | member
    · exact here
    · exact ih later member

theorem From.readsBack (derived : clause.From nonterminal) (genuine : Genuine clause.tokens) :
    clause.ReadsBack nonterminal := by
  induction derived with
  | var word named ends => exact readsBack_var word named ends
  | varInit word named sets value ends =>
    simp only [Clause.tokens, List.cons_append, genuine_cons, genuine_append] at genuine
    exact readsBack_varInit word named sets value ends genuine.2.2.2.1
  | statement _ ih =>
    obtain ⟨derived, text, same⟩ := ih genuine
    exact ⟨.statement derived, text, same⟩
  | expression value ends => exact readsBack_expression value ends (genuine_append.mp genuine).1
  | print word value ends =>
    simp only [Clause.tokens, List.cons_append, genuine_cons, genuine_append] at genuine
    exact readsBack_print word value ends genuine.2.1
  | block opens _ closes each =>
    simp only [Clause.tokens, List.cons_append, genuine_cons, genuine_append] at genuine
    exact readsBack_block opens closes
      (allReadBack (fun clause member => each clause member (genuine_of_mem genuine.2.1 member)))
  | ifThen word opens tested closes _ ih =>
    simp only [Clause.tokens, List.cons_append, genuine_cons, genuine_append] at genuine
    obtain ⟨_, _, inside, _, branch⟩ := genuine
    exact readsBack_ifThen word opens tested closes inside (ih branch)
  | ifElse word opens tested closes _ nearest elseWord _ ih alternativeIh =>
    simp only [Clause.tokens, List.cons_append, List.append_assoc, genuine_cons, genuine_append]
      at genuine
    obtain ⟨_, _, inside, _, branch, _, other⟩ := genuine
    exact readsBack_ifElse word opens tested closes inside (ih branch) nearest elseWord
      (alternativeIh other)

end Clause
end Grammar
end BlockScript
