import BlockScript.Proofs.Grammar.Soundness

/-!
# The tokens that a tree is made of

## Main result

`Parse.leaves_ofTokens`: read from left to right, a program is made of tokens of its text, in their
order and each at most once, whatever is wrong with the text.

## Proof strategy

A tree that stands for a derivation drops tokens that only give it its shape, and those of an
assignment that is left out, but it never moves one. The tokens of the derivations are found in the
text in their order (`exists_derivation`).
-/

namespace BlockScript

open Grammar

/-- What a tree holds at one place: a token, or the value that a token stands for. -/
inductive Leaf where
  | token (token : Token)
  | literal (value : Value)

def Token.leaf (token : Token) : Leaf :=
  match token.kind, token.literal with
  | .keyword .true_, _ => .literal (.bool true)
  | .keyword .false_, _ => .literal (.bool false)
  | .keyword .nil_, _ => .literal .nil
  | .number, some literal | .string, some literal => .literal (.ofLiteral literal)
  | _, _ => .token token

/-- The names, operators and literals of an expression, from left to right. -/
def Expr.leaves : Expr → List Leaf
  | .assign name value => .token name :: value.leaves
  | .binary left operator right => left.leaves ++ .token operator :: right.leaves
  | .group inner => inner.leaves
  | .literal value => [.literal value]
  | .logical left operator right => left.leaves ++ .token operator :: right.leaves
  | .unary operator operand => .token operator :: operand.leaves
  | .lookup name => [.token name]

mutual

/-- Those of a statement, with its keyword if it prints and the name that it declares. -/
def Stmt.leaves : Stmt → List Leaf
  | .block body => Stmt.allLeaves body
  | .expression value => value.leaves
  | .ifThen condition consequent => condition.leaves ++ consequent.leaves
  | .ifElse condition consequent alternative =>
    condition.leaves ++ consequent.leaves ++ alternative.leaves
  | .print keyword value => .token keyword :: value.leaves
  | .var name none => [.token name]
  | .var name (some initializer) => .token name :: initializer.leaves

def Stmt.allLeaves : List Stmt → List Leaf
  | [] => []
  | first :: rest => first.leaves ++ Stmt.allLeaves rest

end

def valueKinds : List TokenKind :=
  [.keyword .true_, .keyword .false_, .keyword .nil_, .number, .string]

/-- A token of any other kind is kept as it is. -/
theorem Token.leaf_eq_token {token : Token} {kind : TokenKind} (same : token.kind = kind)
    (plain : kind ∉ valueKinds) : token.leaf = .token token := by
  subst same
  simp only [valueKinds, List.mem_cons, List.not_mem_nil, or_false, not_or] at plain
  unfold leaf
  split <;> simp_all

namespace Grammar

/-! ### Expressions -/

namespace Phrase

theorem leaves_atomExpr {token : Token} (alone : IsAtom token) :
    (atomExpr token).leaves = [token.leaf] := by
  unfold IsAtom at alone
  split at alone
  · simp_all [atomExpr, Token.leaf, Expr.leaves]
  · simp_all [atomExpr, Token.leaf, Expr.leaves]
  · simp_all [atomExpr, Token.leaf, Expr.leaves]
  · simp_all [atomExpr, Token.leaf, Expr.leaves]
  · obtain ⟨literal, carries⟩ := Option.isSome_iff_exists.mp alone
    simp_all [atomExpr, Token.leaf, Expr.leaves]
  · obtain ⟨literal, carries⟩ := Option.isSome_iff_exists.mp alone
    simp_all [atomExpr, Token.leaf, Expr.leaves]
  · cases alone

/-- Both kinds of nodes hold the same tokens. -/
theorem leaves_binary (left right : Phrase) (operator : Token) :
    (binary left operator right).expr.leaves =
      left.expr.leaves ++ .token operator :: right.expr.leaves := by
  rw [expr]
  split <;> rfl

theorem not_mem_valueKinds {kind : TokenKind} {level : Nat} (member : kind ∈ operators level) :
    kind ∉ valueKinds := by
  unfold operators at member
  split at member <;> simp only [List.mem_cons, List.not_mem_nil, or_false] at member
  all_goals rcases member with rfl | rfl | rfl | rfl <;> decide

/-- A derived expression keeps tokens of its derivation, in their order. -/
theorem At.leaves_sublist {phrase : Phrase} {level : Nat} (derived : phrase.At level) :
    phrase.expr.leaves.Sublist (phrase.tokens.map Token.leaf) := by
  induction derived with
  | atom alone =>
    rw [expr, leaves_atomExpr alone]
    exact .refl _
  | parens _ _ _ ih =>
    simp only [tokens, List.map_cons, List.map_append, List.cons_append]
    exact (ih.trans (List.sublist_append_left _ _)).cons _
  | unary kind _ ih =>
    have kept := kind.elim (fun same => Token.leaf_eq_token same (by decide))
      fun same => Token.leaf_eq_token same (by decide)
    rw [tokens, List.map_cons, kept]
    exact ih.cons_cons _
  | binary kind _ _ ihLeft ihRight =>
    have kept := Token.leaf_eq_token rfl (not_mem_valueKinds kind)
    rw [leaves_binary, tokens, List.map_append, List.map_cons, kept]
    exact ihLeft.append (ihRight.cons_cons _)
  | @assign target value equals _ _ _ ihTarget ihValue =>
    simp only [expr, tokens, List.map_append, List.map_cons]
    -- What is assigned to something that is no name is dropped.
    split
    next name named =>
      obtain ⟨rfl, kind⟩ := eq_atom_of_name? named
      rw [tokens, List.map_singleton, Token.leaf_eq_token kind (by decide)]
      exact (ihValue.cons _).cons_cons _
    next => exact ihTarget.trans (List.sublist_append_left _ _)
  | tighter _ ih => exact ih

end Phrase

/-! ### Declarations and statements -/

theorem Clause.allLeaves_sublist {clauses : List Clause}
    (each : ∀ clause ∈ clauses, clause.stmt.leaves.Sublist (clause.tokens.map Token.leaf)) :
    (Stmt.allLeaves (allStmts clauses)).Sublist ((allTokens clauses).map Token.leaf) := by
  induction clauses with
  | nil => exact .refl _
  | cons first rest ih =>
    obtain ⟨here, later⟩ := List.forall_mem_cons.mp each
    rw [allTokens, List.map_append]
    exact here.append (ih later)

/-- So does a derived declaration. -/
theorem Clause.From.leaves_sublist {nonterminal : Nonterminal} {clause : Clause}
    (derived : clause.From nonterminal) :
    clause.stmt.leaves.Sublist (clause.tokens.map Token.leaf) := by
  induction derived with
  | var _ named _ =>
    simp only [tokens, List.map_cons, Token.leaf_eq_token named (by decide)]
    exact (List.nil_sublist _).cons_cons _ |>.cons _
  | varInit _ named _ value _ =>
    simp only [tokens, List.map_cons, List.map_append, List.cons_append,
      Token.leaf_eq_token named (by decide)]
    exact (((value.leaves_sublist.trans (List.sublist_append_left _ _)).cons _).cons_cons _).cons _
  | statement _ ih => exact ih
  | expression value _ =>
    rw [tokens, List.map_append]
    exact value.leaves_sublist.trans (List.sublist_append_left _ _)
  | print word value _ =>
    simp only [tokens, List.map_cons, List.map_append, List.cons_append,
      Token.leaf_eq_token word (by decide)]
    exact (value.leaves_sublist.trans (List.sublist_append_left _ _)).cons_cons _
  | block _ _ _ each =>
    simp only [tokens, List.map_cons, List.map_append, List.cons_append]
    exact ((allLeaves_sublist each).trans (List.sublist_append_left _ _)).cons _
  | ifThen _ _ tested _ _ ih =>
    simp only [tokens, List.map_cons, List.map_append, List.cons_append]
    exact ((tested.leaves_sublist.append (ih.cons _)).cons _).cons _
  | ifElse _ _ tested _ _ _ _ _ ih ihOther =>
    simp only [tokens, stmt, Stmt.leaves, List.map_cons, List.map_append, List.cons_append,
      List.append_assoc]
    exact ((tested.leaves_sublist.append ((ih.append (ihOther.cons _)).cons _)).cons _).cons _

end Grammar

/-! ### Main theorem -/

/-- **A program is made of its text, in order.** Some of the tokens, in their order, are what the
program holds from left to right, whatever is wrong with them: names, operators and print keywords
as they are, and for literals the values that they stand for. -/
theorem Parse.leaves_ofTokens (tokens : List Token) :
    ∃ used : List Token, used.Sublist tokens ∧
      used.map Token.leaf = Stmt.allLeaves (ofTokens tokens).program := by
  obtain ⟨clauses, derived, program, fewer, -⟩ := exists_derivation tokens
  have among : (Clause.allTokens clauses).Sublist tokens :=
    fewer.trans (List.takeWhile_sublist _)
  have kept : (Stmt.allLeaves (ofTokens tokens).program).Sublist (tokens.map Token.leaf) := by
    rw [program]
    refine (Clause.allLeaves_sublist fun clause member => ?_).trans (among.map Token.leaf)
    exact (derived clause member).leaves_sublist
  obtain ⟨used, inOrder, same⟩ := List.sublist_map_iff.mp kept
  exact ⟨used, inOrder, same.symm⟩

end BlockScript
