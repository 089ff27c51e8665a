import BlockScript.Proofs.Printing.RoundTrip
import BlockScript.Proofs.Run.Blame

/-!
# What a program that has been read is made of

A program holds expressions at every depth: those of its statements, and the operands of those.

## Main result

`isRead_of_mem_allParts`: an expression found anywhere in a program that has been read keeps
tokens of its text, each of a kind that belongs where it stands, and its literals are values that
a literal of a text can stand for.

## Proof strategy

A program that has been read stands for derivations of tokens of its text. What is true of all
names, operators and literals of a tree is true of those of its parts.
-/

namespace BlockScript

open Grammar

/-! ### Parts -/

/-- The expressions that are found in an expression, itself the first of them. -/
def Expr.parts : Expr → List Expr
  | .assign name value => .assign name value :: value.parts
  | .binary left operator right => .binary left operator right :: (left.parts ++ right.parts)
  | .group inner => .group inner :: inner.parts
  | .literal value => [.literal value]
  | .logical left operator right => .logical left operator right :: (left.parts ++ right.parts)
  | .unary operator operand => .unary operator operand :: operand.parts
  | .lookup name => [.lookup name]

mutual

/-- The expressions that are found in a statement. -/
def Stmt.parts : Stmt → List Expr
  | .block body => Stmt.allParts body
  | .expression value => value.parts
  | .ifThen condition consequent => condition.parts ++ consequent.parts
  | .ifElse condition consequent alternative =>
    condition.parts ++ consequent.parts ++ alternative.parts
  | .print _ value => value.parts
  | .var _ none => []
  | .var _ (some initializer) => initializer.parts

def Stmt.allParts : List Stmt → List Expr
  | [] => []
  | first :: rest => first.parts ++ Stmt.allParts rest

end

variable {tokens : List Token} {part : Expr} {value : Value}

theorem Expr.WellFormed.of_mem_parts {expr : Expr} (formed : expr.WellFormed tokens)
    (member : part ∈ expr.parts) : part.WellFormed tokens := by
  induction expr with
  | assign _ _ ih | unary _ _ ih =>
    rcases List.mem_cons.mp member with rfl | inside
    · exact formed
    · exact ih formed.2 inside
  | group _ ih =>
    rcases List.mem_cons.mp member with rfl | inside
    · exact formed
    · exact ih formed inside
  | binary _ _ _ ihLeft ihRight | logical _ _ _ ihLeft ihRight =>
    rcases List.mem_cons.mp member with rfl | inside
    · exact formed
    · obtain ⟨left, -, right⟩ := formed
      exact (List.mem_append.mp inside).elim (ihLeft left) (ihRight right)
  | literal | lookup =>
    obtain rfl := List.mem_singleton.mp member
    exact formed

theorem Expr.mem_literals_of_mem_parts {expr : Expr} (member : part ∈ expr.parts)
    (held : value ∈ part.literals) : value ∈ expr.literals := by
  induction expr with
  | assign _ _ ih | unary _ _ ih | group _ ih =>
    rcases List.mem_cons.mp member with rfl | inside
    · exact held
    · exact ih inside
  | binary _ _ _ ihLeft ihRight | logical _ _ _ ihLeft ihRight =>
    rcases List.mem_cons.mp member with rfl | inside
    · exact held
    · exact List.mem_append.mpr ((List.mem_append.mp inside).imp ihLeft ihRight)
  | literal | lookup =>
    obtain rfl := List.mem_singleton.mp member
    exact held

mutual

theorem Stmt.WellFormed.of_mem_parts (stmt : Stmt) (formed : stmt.WellFormed tokens)
    (member : part ∈ stmt.parts) : part.WellFormed tokens := by
  match stmt with
  | .block body => exact AllWellFormed.of_mem_parts body formed member
  | .expression _ => exact Expr.WellFormed.of_mem_parts formed member
  | .print _ _ | .var _ (some _) => exact Expr.WellFormed.of_mem_parts formed.2 member
  | .var _ none => cases member
  | .ifThen _ consequent =>
    rcases List.mem_append.mp member with inside | inside
    · exact Expr.WellFormed.of_mem_parts formed.1 inside
    · exact WellFormed.of_mem_parts consequent formed.2 inside
  | .ifElse _ consequent alternative =>
    simp only [parts, List.mem_append] at member
    rcases member with (inside | inside) | inside
    · exact Expr.WellFormed.of_mem_parts formed.1 inside
    · exact WellFormed.of_mem_parts consequent formed.2.1 inside
    · exact WellFormed.of_mem_parts alternative formed.2.2 inside

theorem Stmt.AllWellFormed.of_mem_parts (stmts : List Stmt)
    (formed : Stmt.AllWellFormed tokens stmts) (member : part ∈ Stmt.allParts stmts) :
    part.WellFormed tokens := by
  match stmts with
  | [] => cases member
  | first :: rest =>
    rcases List.mem_append.mp member with inside | inside
    · exact WellFormed.of_mem_parts first formed.1 inside
    · exact AllWellFormed.of_mem_parts rest formed.2 inside

end

mutual

theorem Stmt.mem_literals_of_mem_parts (stmt : Stmt) (member : part ∈ stmt.parts)
    (held : value ∈ part.literals) : value ∈ stmt.literals := by
  match stmt with
  | .block body => exact mem_allLiterals_of_mem_allParts body member held
  | .expression _ | .print _ _ | .var _ (some _) =>
    exact Expr.mem_literals_of_mem_parts member held
  | .var _ none => cases member
  | .ifThen _ consequent =>
    refine List.mem_append.mpr ((List.mem_append.mp member).imp (fun inside => ?_) fun inside => ?_)
    · exact Expr.mem_literals_of_mem_parts inside held
    · exact mem_literals_of_mem_parts consequent inside held
  | .ifElse _ consequent alternative =>
    simp only [parts, literals, List.mem_append] at member ⊢
    refine member.imp (Or.imp (fun inside => ?_) fun inside => ?_) fun inside => ?_
    · exact Expr.mem_literals_of_mem_parts inside held
    · exact mem_literals_of_mem_parts consequent inside held
    · exact mem_literals_of_mem_parts alternative inside held

theorem Stmt.mem_allLiterals_of_mem_allParts (stmts : List Stmt)
    (member : part ∈ Stmt.allParts stmts) (held : value ∈ part.literals) :
    value ∈ Stmt.allLiterals stmts := by
  match stmts with
  | [] => cases member
  | first :: rest =>
    refine List.mem_append.mpr ((List.mem_append.mp member).imp (fun inside => ?_) fun inside => ?_)
    · exact mem_literals_of_mem_parts first inside held
    · exact mem_allLiterals_of_mem_allParts rest inside held

end

/-! ### Literals -/

/-- The values that a literal of a text can stand for. -/
inductive Value.IsRead : Value → Prop where
  | nil : IsRead .nil
  | bool (value : Bool) : IsRead (.bool value)
  | number {whole fraction : List Char} (form : Number.IsNumeral whole fraction) :
      IsRead (.number (Number.ofNumeral whole fraction))
  | string {body : List Char} (unquoted : '"' ∉ body) : IsRead (.string (String.ofList body))

theorem Lexeme.isRead {kind : TokenKind} {literal : Literal} {text : List Char}
    (lexeme : Lexeme kind (some literal) text) : (Value.ofLiteral literal).IsRead := by
  cases lexeme with
  | string unquoted => exact .string unquoted
  | number form => exact .number form

namespace Grammar

theorem Phrase.isRead_atomExpr {token : Token} (genuine : token.IsGenuine) {value : Value}
    (member : value ∈ (atomExpr token).literals) : value.IsRead := by
  unfold atomExpr at member
  split at member
  · cases member
  next => exact List.mem_singleton.mp member ▸ .bool true
  next => exact List.mem_singleton.mp member ▸ .bool false
  next => exact List.mem_singleton.mp member ▸ .nil
  next =>
    obtain rfl := List.mem_singleton.mp member
    unfold Token.IsGenuine at genuine
    cases literal : token.literal with
    | none => exact .nil
    | some _ => exact (literal ▸ genuine).isRead

theorem Phrase.isRead {phrase : Phrase} (genuine : Genuine phrase.tokens) :
    ∀ value ∈ phrase.expr.literals, value.IsRead := by
  induction phrase with
  | atom token => exact fun _ => isRead_atomExpr (genuine token List.mem_cons_self)
  | parens _ _ _ ih =>
    simp only [tokens, List.cons_append, genuine_cons, genuine_append] at genuine
    exact ih genuine.2.1
  | unary _ _ ih => exact ih (genuine_cons.mp genuine).2
  | binary _ _ _ ihLeft ihRight =>
    obtain ⟨left, rest⟩ := genuine_append.mp genuine
    rw [literals_binary]
    exact List.forall_mem_append.mpr ⟨ihLeft left, ihRight (genuine_cons.mp rest).2⟩
  | assign target _ _ ihTarget ihValue =>
    obtain ⟨first, rest⟩ := genuine_append.mp genuine
    simp only [expr]
    -- A rejected assignment drops the literals of its right side.
    split
    next => exact ihValue (genuine_cons.mp rest).2
    next => exact ihTarget first

namespace Clause

mutual

theorem isRead (clause : Clause) (genuine : Genuine clause.tokens) :
    ∀ value ∈ clause.stmt.literals, value.IsRead := by
  match clause with
  | .var .. => exact fun value member => nomatch member
  | .expression .. => exact Phrase.isRead (genuine_append.mp genuine).1
  | .varInit .. =>
    simp only [tokens, List.cons_append, genuine_cons, genuine_append] at genuine
    exact Phrase.isRead genuine.2.2.2.1
  | .print .. =>
    simp only [tokens, List.cons_append, genuine_cons, genuine_append] at genuine
    exact Phrase.isRead genuine.2.1
  | .block _ body _ =>
    simp only [tokens, List.cons_append, genuine_cons, genuine_append] at genuine
    exact allRead body genuine.2.1
  | .ifThen _ _ _ _ consequent =>
    simp only [tokens, List.cons_append, genuine_cons, genuine_append] at genuine
    obtain ⟨-, -, inside, -, branch⟩ := genuine
    exact List.forall_mem_append.mpr ⟨Phrase.isRead inside, isRead consequent branch⟩
  | .ifElse _ _ _ _ consequent _ alternative =>
    simp only [tokens, List.cons_append, List.append_assoc, genuine_cons, genuine_append]
      at genuine
    obtain ⟨-, -, inside, -, branch, -, other⟩ := genuine
    refine List.forall_mem_append.mpr ⟨?_, isRead alternative other⟩
    exact List.forall_mem_append.mpr ⟨Phrase.isRead inside, isRead consequent branch⟩

theorem allRead (clauses : List Clause) (genuine : Genuine (allTokens clauses)) :
    ∀ value ∈ Stmt.allLiterals (allStmts clauses), value.IsRead := by
  match clauses with
  | [] => exact fun value member => nomatch member
  | first :: rest =>
    obtain ⟨here, later⟩ := genuine_append.mp genuine
    exact List.forall_mem_append.mpr ⟨isRead first here, allRead rest later⟩

end

end Clause
end Grammar

/-! ### Programs that have been read -/

/-- A program that has been read is made of tokens of a text. -/
theorem exists_wellFormed_parse (source : String) :
    ∃ tokens, Genuine tokens ∧ Stmt.AllWellFormed tokens (parse source).program ∧
      ∀ value ∈ Stmt.allLiterals (parse source).program, value.IsRead := by
  obtain ⟨clauses, derived, genuine, program⟩ := exists_genuine_derivation source
  refine ⟨Clause.allTokens clauses, genuine, ?_, ?_⟩ <;> rw [program]
  · exact Clause.allWellFormed
      (fun clause member among => (derived clause member).wellFormed among) fun _ => id
  · exact Clause.allRead clauses genuine

/-- Whether an expression is made of tokens of a text. -/
structure Expr.IsRead (expr : Expr) : Prop where
  formed : ∃ tokens, Genuine tokens ∧ expr.WellFormed tokens
  literals : ∀ value ∈ expr.literals, value.IsRead

/-- So is every expression that is found in it. -/
theorem isRead_of_mem_allParts {source : String}
    (found : part ∈ Stmt.allParts (parse source).program) : part.IsRead := by
  obtain ⟨tokens, genuine, formed, read⟩ := exists_wellFormed_parse source
  refine ⟨⟨tokens, genuine, Stmt.AllWellFormed.of_mem_parts _ formed found⟩, fun value held => ?_⟩
  exact read value (Stmt.mem_allLiterals_of_mem_allParts _ found held)

end BlockScript
