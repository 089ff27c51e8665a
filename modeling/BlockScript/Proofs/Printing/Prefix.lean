import BlockScript.Proofs.Grammar.Parts

/-!
# The prefix form shows the tree

## Main result

`renderPrefix_eq_iff`: two expressions found anywhere in programs that have been read, with finite
numbers, have the same prefix form if and only if they are the same but for lines.

## Proof strategy

1. The prefix form is read as one token for each parenthesis, head and leaf of the tree
   (`Expr.writes_prefixText`). A string may hold anything, but it is one token.
2. The tokens are read from the last to the first. A closing parenthesis opens a level, and an
   opening one puts a tree together from the level that it ends. What is read is the tree
   (`Prefix.read_prefixTokens`), so no two trees have the same tokens.
-/

namespace BlockScript

open Grammar

/-! ### Tokens of the prefix form -/

def Symbol.token (symbol : Symbol) : Token :=
  ⟨.symbol symbol, String.ofList symbol.spelling, none, 0⟩

theorem Symbol.isCanonical_token (symbol : Symbol) : symbol.token.IsCanonical := by
  refine ⟨?_, rfl, by simp [token]⟩
  simpa [Token.IsGenuine, token] using Lexeme.symbol symbol

def Value.token : Value → Token
  | .nil => ⟨.keyword .nil_, "nil", none, 0⟩
  | .bool true => ⟨.keyword .true_, "true", none, 0⟩
  | .bool false => ⟨.keyword .false_, "false", none, 0⟩
  | .number x => ⟨.number, Number.text x, some (.number x), 0⟩
  | .string body => ⟨.string, "\"" ++ body ++ "\"", some (.string body), 0⟩

namespace Value

theorem lexeme_token (value : Value) : value.token.lexeme = value.source := by
  cases value with
  | bool value => cases value <;> rfl
  | nil | number | string => rfl

theorem unlined_token (value : Value) : value.token.unlined = value.token := by
  cases value with
  | bool value => cases value <;> rfl
  | nil | number | string => rfl

/-- The token of a value stands for the value. -/
theorem atomExpr_token (value : Value) : Phrase.atomExpr value.token = .literal value := by
  cases value with
  | bool value => cases value <;> rfl
  | nil | number | string => rfl

/-- A value that a literal can stand for is written as a token, unless it is infinite. -/
theorem IsRead.isGenuine_token {value : Value} (read : value.IsRead)
    (finite : ∀ x, value = .number x → x.isFinite = true) : value.token.IsGenuine := by
  cases read with
  | nil => exact Lexeme.keyword .nil_
  | bool value =>
    cases value
    · exact Lexeme.keyword .false_
    · exact Lexeme.keyword .true_
  | @number whole fraction form =>
    -- The shortest text of a number is a numeral, though not the one that was read.
    obtain ⟨digits, decimals, form, written, value⟩ :=
      Number.exists_numeral_text (finite _ rfl)
    have short := Lexeme.number form
    rwa [value, ← written] at short
  | string unquoted => simpa [Token.IsGenuine, token] using Lexeme.string unquoted

end Value

namespace Prefix

/-- The head of a node that stands for parentheses of the source. -/
def groupToken : Token :=
  ⟨.identifier, "group", none, 0⟩

theorem isGenuine_groupToken : groupToken.IsGenuine :=
  .identifier rfl (List.all_eq_true.mp rfl) (fun word => by cases word <;> decide)

def node (head : Token) (operands : List Token) : List Token :=
  Symbol.leftParen.token :: head :: operands ++ [Symbol.rightParen.token]

end Prefix

/-- The tokens of the prefix form of an expression. -/
def Expr.prefixTokens : Expr → List Token
  | .assign name value =>
    Prefix.node Symbol.assign.token (name.unlined :: value.prefixTokens)
  | .binary left operator right =>
    Prefix.node operator.unlined (left.prefixTokens ++ right.prefixTokens)
  | .group inner => Prefix.node Prefix.groupToken inner.prefixTokens
  | .literal value => [value.token]
  | .logical left operator right =>
    Prefix.node operator.unlined (left.prefixTokens ++ right.prefixTokens)
  | .unary operator operand => Prefix.node operator.unlined operand.prefixTokens
  | .lookup name => [name.unlined]

/-! ### The text spells the tokens -/

namespace Prefix

/-- Whether a text in front of any separator is read as some tokens. -/
def Writes (text : String) (tokens : List Token) : Prop :=
  ∀ rest more, Separates rest → Spells rest more → Spells (text.toList ++ rest) (tokens ++ more)

variable {token : Token} {text other : String} {tokens more : List Token}

theorem writes_word (genuine : token.IsGenuine) : Writes token.lexeme [token.unlined] := by
  intro rest later separates spells
  have known : token.unlined.IsGenuine := genuine
  exact spells.token known rfl (separates.endsBefore token.kind)

theorem Writes.pair (first : Writes text tokens) (second : Writes other more) :
    Writes (text ++ " " ++ other) (tokens ++ more) := by
  intro rest later separates spells
  have whole := first _ _ (separates_cons _ (by simp)) (second _ _ separates spells).space
  simpa using whole

/-- A node is written as its head and its operands between parentheses. -/
theorem Writes.node (operands : Writes text tokens) (head : Token) (genuine : head.IsGenuine)
    (unlined : head.line = 0) :
    Writes ("(" ++ head.lexeme ++ " " ++ text ++ ")") (Prefix.node head tokens) := by
  intro rest later _ spells
  -- The text is composed from its end, each part in front of what is spelled already.
  have closed := spells.bracket Symbol.rightParen.isCanonical_token rfl ')' rfl (by simp)
  have inner := operands _ _ (separates_cons rest (by simp)) closed
  have named := inner.space.token genuine unlined (head.kind.endsBefore_blank rfl _)
  have opened := named.bracket Symbol.leftParen.isCanonical_token rfl '(' rfl (by simp)
  simpa [Prefix.node] using opened

end Prefix

/-- The prefix form of an expression that has been read is read as its tokens. -/
theorem Expr.writes_prefixText {expr : Expr} {tokens : List Token} (genuine : Genuine tokens)
    (formed : expr.WellFormed tokens)
    (leaves : ∀ value ∈ expr.literals, value.token.IsGenuine) :
    Prefix.Writes expr.prefixText expr.prefixTokens := by
  induction expr with
  | assign name value ih =>
    obtain ⟨⟨member, -⟩, inside⟩ := formed
    have operands := (Prefix.writes_word (genuine name member)).pair (ih inside leaves)
    have whole := operands.node Symbol.assign.token Symbol.assign.isCanonical_token.genuine rfl
    simpa [prefixText, prefixTokens, Symbol.token, Symbol.spelling, String.append_assoc] using whole
  | binary left operator right ihLeft ihRight | logical left operator right ihLeft ihRight =>
    obtain ⟨inLeft, ⟨member, -⟩, inRight⟩ := formed
    obtain ⟨leftLeaves, rightLeaves⟩ := List.forall_mem_append.mp leaves
    have operands := (ihLeft inLeft leftLeaves).pair (ihRight inRight rightLeaves)
    have whole := operands.node operator.unlined (genuine operator member) rfl
    simpa [prefixText, prefixTokens, String.append_assoc] using whole
  | group inner ih =>
    have whole := (ih formed leaves).node Prefix.groupToken Prefix.isGenuine_groupToken rfl
    simpa [prefixText, prefixTokens, Prefix.groupToken, String.append_assoc] using whole
  | literal value =>
    have whole := Prefix.writes_word (leaves value (List.mem_singleton_self _))
    rwa [value.lexeme_token, value.unlined_token] at whole
  | unary operator operand ih =>
    obtain ⟨⟨member, -⟩, inside⟩ := formed
    exact (ih inside leaves).node operator.unlined (genuine operator member) rfl
  | lookup name => exact Prefix.writes_word (genuine name formed.1)

/-! ### Reading the tokens -/

namespace Prefix

/-- What stands between parentheses: a word, or a tree that has been put together. -/
inductive Entry where
  | word (token : Token)
  | tree (expr : Expr)

def Entry.expr : Entry → Expr
  | word token => Phrase.atomExpr token
  | tree expr => expr

def build (head : Token) (operands : List Expr) : Expr :=
  match head.kind, operands with
  | .identifier, [inner] => .group inner
  | .symbol .assign, [.lookup name, value] => .assign name value
  | .keyword _, [left, right] => .logical left head right
  | _, [left, right] => .binary left head right
  | _, [operand] => .unary head operand
  -- No node is written like this.
  | _, _ => .lookup head

/-- Reads the token in front of what has been read: the entries of each level of parentheses
whose opening one is still to come, the innermost first. -/
def step (token : Token) (levels : List (List Entry)) : List (List Entry) :=
  match token.kind, levels with
  | .symbol .rightParen, levels => [] :: levels
  | .symbol .leftParen, (.word head :: operands) :: level :: outer =>
    (.tree (build head (operands.map Entry.expr)) :: level) :: outer
  -- Parentheses hold a head, and every level but the last stands in another one.
  | .symbol .leftParen, _ => []
  | _, level :: outer => (.word token :: level) :: outer
  | _, [] => []

/-- The tree whose prefix form has these tokens. -/
def read (tokens : List Token) : Option Expr :=
  match tokens.foldr step [[]] with
  | [[entry]] => some entry.expr
  | _ => none

/-- Whether a token is no parenthesis. -/
def IsWord (token : Token) : Prop :=
  token.kind ≠ .symbol .leftParen ∧ token.kind ≠ .symbol .rightParen

variable {token head : Token} {level : List Entry} {outer : List (List Entry)}

theorem step_word (word : IsWord token) :
    step token (level :: outer) = (.word token :: level) :: outer := by
  obtain ⟨noOpening, noClosing⟩ := word
  unfold step
  split <;> simp_all

/-- A node is read as one tree if its operands are read as the entries of one level. -/
theorem foldr_step_node (word : IsWord head) {tokens : List Token} {entries : List Entry}
    (inside : tokens.foldr step ([] :: level :: outer) = entries :: level :: outer) :
    (node head tokens).foldr step (level :: outer) =
      (.tree (build head (entries.map Entry.expr)) :: level) :: outer := by
  have closing : step Symbol.rightParen.token (level :: outer) = [] :: level :: outer := rfl
  rw [node, List.cons_append, List.cons_append, List.foldr_cons, List.foldr_cons,
    List.foldr_append, List.foldr_cons, List.foldr_nil, closing, inside, step_word word]
  rfl

/-! ### Reading what has been written -/

def entry : Expr → Entry
  | .literal value => .word value.token
  | .lookup name => .word name.unlined
  | expr => .tree (expr.map Token.unlined)

variable {expr : Expr} {tokens : List Token}

theorem atomExpr_name {name : Token} (named : name.kind = .identifier) :
    Phrase.atomExpr name.unlined = .lookup name.unlined := by
  simp [Phrase.atomExpr, Token.unlined, named]

theorem expr_entry (formed : expr.WellFormed tokens) :
    (entry expr).expr = expr.map Token.unlined := by
  cases expr with
  | literal value => exact value.atomExpr_token
  | lookup name => exact atomExpr_name formed.2
  | assign | binary | group | logical | unary => rfl

theorem isWord_token (value : Value) : IsWord value.token := by
  cases value with
  | bool value => cases value <;> simp [IsWord, Value.token]
  | nil | number | string => simp [IsWord, Value.token]

theorem isWord_name {name : Token} (named : name.kind = .identifier) : IsWord name.unlined := by
  simp [IsWord, Token.unlined, named]

/-! The kind of its head and the number of its operands tell what a node is. -/

section

variable {operator : Token} {tight : Nat}

theorem isWord_operator (kind : operator.kind ∈ operators tight) : IsWord operator.unlined := by
  simp only [operators] at kind
  split at kind <;> simp_all [IsWord, Token.unlined] <;> grind

theorem build_binary (binds : 2 < tight) (kind : operator.kind ∈ operators tight)
    (left right : Expr) :
    build operator.unlined [left, right] = .binary left operator.unlined right := by
  have same : operator.unlined.kind = operator.kind := rfl
  simp only [operators] at kind
  split at kind <;> simp_all [build] <;> grind

theorem build_logical (binds : tight ≤ 2) (kind : operator.kind ∈ operators tight)
    (left right : Expr) :
    build operator.unlined [left, right] = .logical left operator.unlined right := by
  have same : operator.unlined.kind = operator.kind := rfl
  simp only [operators] at kind
  split at kind <;> simp_all [build]

theorem build_unary (kind : operator.kind ∈ [.symbol .bang, .symbol .minus]) (operand : Expr) :
    IsWord operator.unlined ∧
      build operator.unlined [operand] = .unary operator.unlined operand := by
  simp only [List.mem_cons, List.not_mem_nil, or_false] at kind
  rcases kind with kind | kind <;> simp [IsWord, build, Token.unlined, kind]

end

/-- Two operands are read as two entries of a new level. -/
private theorem foldr_step_pair {left right : Expr}
    (readLeft : ∀ level outer,
      left.prefixTokens.foldr step (level :: outer) = (entry left :: level) :: outer)
    (readRight : ∀ level outer,
      right.prefixTokens.foldr step (level :: outer) = (entry right :: level) :: outer) :
    (left.prefixTokens ++ right.prefixTokens).foldr step ([] :: outer) =
      [entry left, entry right] :: outer := by
  rw [List.foldr_append, readRight, readLeft]

private theorem map_pair {left right : Expr} (inLeft : left.WellFormed tokens)
    (inRight : right.WellFormed tokens) :
    [entry left, entry right].map Entry.expr =
      [left.map Token.unlined, right.map Token.unlined] := by
  rw [List.map_cons, List.map_singleton, expr_entry inLeft, expr_entry inRight]

/-- Reading the tokens of an expression gives its entry, in front of what was there. -/
theorem foldr_step_prefixTokens (formed : expr.WellFormed tokens) (level : List Entry)
    (outer : List (List Entry)) :
    expr.prefixTokens.foldr step (level :: outer) = (entry expr :: level) :: outer := by
  -- A node reads its operands on a level of its own, so the induction is for all levels.
  induction expr generalizing level outer with
  | assign name value ih =>
    obtain ⟨⟨-, named⟩, inside⟩ := formed
    have operands : (name.unlined :: value.prefixTokens).foldr step ([] :: level :: outer) =
        [.word name.unlined, entry value] :: level :: outer := by
      rw [List.foldr_cons, ih inside, step_word (isWord_name named)]
    have trees : [.word name.unlined, entry value].map Entry.expr =
        [.lookup name.unlined, value.map Token.unlined] := by
      simp only [List.map_cons, List.map_nil, Entry.expr, atomExpr_name named,
        ← expr_entry inside]
    rw [Expr.prefixTokens, foldr_step_node (by simp [IsWord, Symbol.token]) operands, trees]
    rfl
  | binary left operator right ihLeft ihRight =>
    obtain ⟨inLeft, ⟨-, tight, binds, kind⟩, inRight⟩ := formed
    rw [Expr.prefixTokens, foldr_step_node (isWord_operator kind)
      (foldr_step_pair (ihLeft inLeft) (ihRight inRight)), map_pair inLeft inRight,
      build_binary binds kind]
    rfl
  | logical left operator right ihLeft ihRight =>
    obtain ⟨inLeft, ⟨-, loose, binds, kind⟩, inRight⟩ := formed
    rw [Expr.prefixTokens, foldr_step_node (isWord_operator kind)
      (foldr_step_pair (ihLeft inLeft) (ihRight inRight)), map_pair inLeft inRight,
      build_logical binds kind]
    rfl
  | group inner ih =>
    have inside : inner.WellFormed tokens := formed
    rw [Expr.prefixTokens, foldr_step_node (by simp [IsWord, groupToken]) (ih inside [] _),
      List.map_singleton, expr_entry inside]
    rfl
  | literal value => exact step_word (isWord_token value)
  | unary operator operand ih =>
    obtain ⟨⟨-, kind⟩, inside⟩ := formed
    obtain ⟨word, built⟩ := build_unary kind (operand.map Token.unlined)
    rw [Expr.prefixTokens, foldr_step_node word (ih inside [] _), List.map_singleton,
      expr_entry inside, built]
    rfl
  | lookup name => exact step_word (isWord_name formed.2)

/-- The tree is read off the tokens of its prefix form. -/
theorem read_prefixTokens (formed : expr.WellFormed tokens) :
    read expr.prefixTokens = some (expr.map Token.unlined) := by
  rw [read, foldr_step_prefixTokens formed]
  exact congrArg some (expr_entry formed)

end Prefix

/-! ### The prefix form of what has been read -/

theorem Expr.prefixText_map {f : Token → Token} (same : ∀ token, (f token).lexeme = token.lexeme)
    (expr : Expr) : (expr.map f).prefixText = expr.prefixText := by
  induction expr with
  | assign _ _ ih => simp only [map, prefixText, same, ih]
  | binary _ _ _ ihLeft ihRight | logical _ _ _ ihLeft ihRight =>
    simp only [map, prefixText, same, ihLeft, ihRight]
  | group _ ih => simp only [map, prefixText, ih]
  | literal => rfl
  | unary _ _ ih => simp only [map, prefixText, same, ih]
  | lookup => simp only [map, prefixText, same]

/-- The prefix form is a text without errors, and the tree is read off its tokens. -/
theorem Expr.IsRead.read_scan {expr : Expr} (made : expr.IsRead) (finite : AllFinite expr.literals) :
    (scan expr.renderPrefix).errors = [] ∧
      Prefix.read ((scan expr.renderPrefix).tokens.dropLast.map Token.unlined) =
        some (expr.map Token.unlined) := by
  obtain ⟨⟨tokens, genuine, formed⟩, literals⟩ := made
  -- Only an infinite number is not written as a token that stands for it.
  have leaves : ∀ value ∈ expr.literals, value.token.IsGenuine := fun value member =>
    (literals value member).isGenuine_token fun x same => finite x (same ▸ member)
  have spells := Expr.writes_prefixText genuine formed leaves [] [] (by simp [Separates]) .nil
  rw [List.append_nil, List.append_nil, ← renderPrefix_eq] at spells
  obtain ⟨clean, read⟩ := scan_of_spells spells
  rw [List.map_dropLast, read, List.dropLast_concat]
  exact ⟨clean, Prefix.read_prefixTokens formed⟩

/-- **The prefix form shows the tree.** Two expressions that are found anywhere in programs that
have been read, whatever was wrong with the texts, and whose numbers are finite have the same
prefix form if and only if they are the same in everything but the lines of their tokens. -/
theorem renderPrefix_eq_iff {source other : String} {left right : Expr}
    (found : left ∈ Stmt.allParts (parse source).program) (finite : AllFinite left.literals)
    (foundOther : right ∈ Stmt.allParts (parse other).program)
    (finiteOther : AllFinite right.literals) :
    left.renderPrefix = right.renderPrefix ↔
      left.map Token.unlined = right.map Token.unlined := by
  constructor
  · intro same
    have readLeft := ((isRead_of_mem_allParts found).read_scan finite).2
    have readRight := ((isRead_of_mem_allParts foundOther).read_scan finiteOther).2
    rw [same, readRight] at readLeft
    exact (Option.some.inj readLeft).symm
  · intro same
    rw [Expr.renderPrefix_eq, Expr.renderPrefix_eq, ← left.prefixText_map Token.lexeme_unlined,
      ← right.prefixText_map Token.lexeme_unlined, same]

/-- The same tree in two texts: its string looks like a node, and its number has two spellings. -/
theorem renderPrefix_eq_iff_nested :
    let tree line := Expr.assign ⟨.identifier, "x", none, line⟩
      (.binary (.unary ⟨.symbol .minus, "-", none, line⟩ (.group (.literal (.number 1.5))))
        ⟨.symbol .equal, "==", none, line⟩ (.literal (.string "(- 1)")))
    tree 1 ∈ Stmt.allParts (parse "x = -(1.50) == \"(- 1)\";").program ∧
    AllFinite (tree 1).literals ∧
    tree 2 ∈ Stmt.allParts (parse "\x7b print\n!(x = -(1.5) == \"(- 1)\"); \x7d").program ∧
    AllFinite (tree 2).literals ∧
    ((tree 1).renderPrefix = (tree 2).renderPrefix ↔
      (tree 1).map Token.unlined = (tree 2).map Token.unlined) := by
  intro tree
  have found : (Stmt.allParts (parse "x = -(1.50) == \"(- 1)\";").program)[0]? =
      some (tree 1) := by
    decide +kernel
  have foundOther : (Stmt.allParts
      (parse "\x7b print\n!(x = -(1.5) == \"(- 1)\"); \x7d").program)[2]? = some (tree 2) := by
    decide +kernel
  have finite (line : Nat) : AllFinite (tree line).literals := by
    intro x member
    obtain rfl : x = 1.5 := by simpa [tree, Expr.literals] using member
    decide +kernel
  have member := List.mem_of_getElem? found
  have memberOther := List.mem_of_getElem? foundOther
  exact ⟨member, finite 1, memberOther, finite 2,
    renderPrefix_eq_iff member (finite 1) memberOther (finite 2)⟩

end BlockScript
