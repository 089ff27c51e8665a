import BlockScript.Proofs.Grammar.Derivation
import Mathlib.Tactic.IntervalCases

/-!
# The grammar is unambiguous

A list of tokens has at most one derivation.

## Main results

`Phrase.At.unique`: two expressions of one level in front of the same tokens are the
same, if each of them ends where no operator of its level can follow.
`Derives.unique`: a program has one derivation.

## Proof strategy

Two derivations begin at the same place of the same tokens but need not end at the same
place, so what is proved is that they end at the same place, too. For expressions the
induction is on the number of tokens, and for each number it goes from the tightest level
to the loosest. A level whose operators associate to the left is first turned into a chain
of operands of the next level. For clauses the first token tells the production (`Form`), and
an `else` is the only token that could follow a clause or belong to it.
-/

namespace BlockScript.Grammar

/-! ### First tokens -/

/-- What the first token of a clause tells about it. -/
inductive Form where
  | declares
  | evaluates
  | prints
  | encloses
  | branches
  deriving DecidableEq

/-- The form of a clause that begins with a token of this kind. -/
def Form.ofKind : TokenKind → Form
  | .keyword .var_ => declares
  | .keyword .print_ => prints
  | .keyword .if_ => branches
  | .symbol .leftBrace => encloses
  | _ => evaluates

def Clause.form : Clause → Form
  | var .. | varInit .. => .declares
  | expression .. => .evaluates
  | print .. => .prints
  | block .. => .encloses
  | ifThen .. | ifElse .. => .branches

/-- The kinds of the tokens that no clause begins with but that may follow one. -/
def Follows (kind : TokenKind) : Prop :=
  kind = .keyword .else_ ∨ kind = .symbol .rightBrace

theorem Phrase.At.exists_head {phrase : Phrase} {level : Nat} (derived : phrase.At level) :
    ∃ first more, phrase.tokens = first :: more ∧ Form.ofKind first.kind = .evaluates ∧
      ¬ Follows first.kind := by
  induction derived with
  | @atom token alone =>
    refine ⟨token, [], rfl, ?_⟩
    unfold IsAtom at alone
    split at alone <;> simp_all [Form.ofKind, Follows]
  | parens opens => exact ⟨_, _, rfl, by simp [opens, Form.ofKind, Follows]⟩
  | unary kind =>
    refine ⟨_, _, rfl, ?_⟩
    rcases kind with kind | kind <;> simp [kind, Form.ofKind, Follows]
  | binary _ _ _ left _ =>
    obtain ⟨first, more, same, head⟩ := left
    exact ⟨first, _, by rw [tokens, same]; rfl, head⟩
  | assign _ _ _ left _ =>
    obtain ⟨first, more, same, head⟩ := left
    exact ⟨first, _, by rw [tokens, same]; rfl, head⟩
  | tighter _ head => exact head

namespace Clause

variable {nonterminal : Nonterminal} {clause : Clause}

theorem From.toDeclaration (derived : clause.From nonterminal) : clause.From .declaration := by
  cases nonterminal with
  | declaration => exact derived
  | statement => exact .statement derived

theorem From.toStatement (derived : clause.From nonterminal) (form : clause.form ≠ .declares) :
    clause.From .statement := by
  cases derived.toDeclaration with
  | var | varInit => exact absurd rfl form
  | statement derived => exact derived

theorem From.exists_head (derived : clause.From nonterminal) :
    ∃ first more, clause.tokens = first :: more ∧ Form.ofKind first.kind = clause.form ∧
      ¬ Follows first.kind := by
  induction derived with
  | var word | varInit word | print word | ifThen word | ifElse word =>
    exact ⟨_, _, rfl, by simp [word, Form.ofKind, form, Follows]⟩
  | statement _ head => exact head
  | expression derived =>
    obtain ⟨first, more, same, head⟩ := derived.exists_head
    exact ⟨first, _, by rw [tokens, same]; rfl, head⟩
  | block opens => exact ⟨_, _, rfl, by simp [opens, Form.ofKind, form, Follows]⟩

end Clause

/-! ### Where an expression ends -/

/-- Whether no expression of a level that ends in front of the tokens could go on. -/
def Stops (level : Nat) (rest : List Token) : Prop :=
  ∀ next ∈ rest.head?, (∀ tighter, level ≤ tighter → next.kind ∉ operators tighter) ∧
    (level = 0 → next.kind ≠ .symbol .assign)

theorem Stops.mono {level tighter : Nat} {rest : List Token} (stops : Stops level rest)
    (bound : level ≤ tighter) : Stops tighter rest := by
  intro next first
  obtain ⟨noOperator, noAssign⟩ := stops next first
  exact ⟨fun other above => noOperator other (bound.trans above),
    fun zero => noAssign (Nat.le_zero.mp (zero ▸ bound))⟩

theorem stops_of_kind {next : Token} (rest : List Token)
    (ends : next.kind = .symbol .semicolon ∨ next.kind = .symbol .rightParen) (level : Nat) :
    Stops level (next :: rest) := by
  intro token first
  obtain rfl : next = token := by simpa using first
  constructor
  · intro tighter _ member
    obtain ⟨low, high⟩ := level_of_mem_operators member
    interval_cases tighter <;> rcases ends with kind | kind <;> simp [kind, operators] at member
  · rcases ends with kind | kind <;> simp [kind]

theorem stops_operator {operator : Token} (rest : List Token) {level : Nat}
    (kind : operator.kind ∈ operators level) : Stops (level + 1) (operator :: rest) := by
  intro token first
  obtain rfl : operator = token := by simpa using first
  refine ⟨fun tighter above member => ?_, by simp⟩
  have same := operators_inj kind member
  omega

theorem stops_assign {equals : Token} (rest : List Token)
    (kind : equals.kind = .symbol .assign) : Stops 1 (equals :: rest) := by
  intro token first
  obtain rfl : equals = token := by simpa using first
  refine ⟨fun tighter above member => ?_, by simp⟩
  obtain ⟨low, high⟩ := level_of_mem_operators member
  interval_cases tighter <;> simp [kind, operators] at member

namespace Phrase

/-! ### Chains of operands -/

/-- The operands of a level of binary operators, taken together from the left. -/
def chain (first : Phrase) (links : List (Token × Phrase)) : Phrase :=
  links.foldl (fun left link => .binary left link.1 link.2) first

/-- The tokens that follow the first operand of a chain. -/
def linkTokens (links : List (Token × Phrase)) : List Token :=
  links.flatMap (fun link => link.1 :: link.2.tokens)

theorem tokens_chain (first : Phrase) (links : List (Token × Phrase)) :
    (chain first links).tokens = first.tokens ++ linkTokens links := by
  induction links generalizing first with
  | nil => simp [chain, linkTokens]
  | cons link links ih =>
    have rest := ih (.binary first link.1 link.2)
    simpa [chain, linkTokens, tokens] using rest

/-- The operators of a chain are of its level, and its operands of the next. -/
def Links (level : Nat) (links : List (Token × Phrase)) : Prop :=
  ∀ link ∈ links, link.1.kind ∈ operators level ∧ link.2.At (level + 1)

variable {level : Nat}

theorem At.level_le {phrase : Phrase} (derived : phrase.At level) : level ≤ 8 := by
  induction derived with
  | atom => exact le_refl 8
  | parens => exact le_refl 8
  | unary => exact Nat.le_succ 7
  | binary _ _ _ firstBound _ => exact firstBound
  | assign => exact Nat.zero_le 8
  | tighter _ bound => exact (Nat.le_succ _).trans bound

theorem At.exists_chain {phrase : Phrase} (derived : phrase.At level) (low : 1 ≤ level)
    (high : level ≤ 6) :
    ∃ first links, first.At (level + 1) ∧ Links level links ∧ phrase = chain first links := by
  induction derived with
  | atom | parens | unary => omega
  | assign => omega
  | @tighter level phrase derived _ => exact ⟨phrase, [], derived, by simp [Links], rfl⟩
  | @binary level left right operator kind _ second leftChain _ =>
    obtain ⟨first, links, firstAt, linked, rfl⟩ := leftChain low high
    refine ⟨first, links ++ [(operator, right)], firstAt, ?_, by simp [chain]⟩
    intro link member
    rcases List.mem_append.mp member with earlier | last
    · exact linked link earlier
    · rw [List.mem_singleton.mp last]
      exact ⟨kind, second⟩

/-! ### Expressions -/

/-- What is to be proved of a level, for at most so many tokens. -/
def Unique (level count : Nat) : Prop :=
  ∀ ⦃phrase other : Phrase⦄ ⦃rest otherRest : List Token⦄, phrase.At level → other.At level →
    phrase.tokens ++ rest = other.tokens ++ otherRest →
    (phrase.tokens ++ rest).length ≤ count → Stops level rest → Stops level otherRest →
    phrase = other ∧ rest = otherRest

/-- A primary expression is known from its first token. -/
theorem primary_cases {phrase : Phrase} (derived : phrase.At 8) :
    (∃ token, IsAtom token ∧ phrase = .atom token) ∨
    (∃ opening inner closing, opening.kind = .symbol .leftParen ∧ inner.At 0 ∧
      closing.kind = .symbol .rightParen ∧ phrase = .parens opening inner closing) := by
  cases derived with
  | atom alone => exact .inl ⟨_, alone, rfl⟩
  | parens opens derived closes => exact .inr ⟨_, _, _, opens, derived, closes, rfl⟩
  | binary kind => simp [operators] at kind
  | tighter derived => exact absurd derived.level_le (by decide)

private theorem unique_primary {count : Nat} (inside : Unique 0 count) :
    Unique 8 (count + 1) := by
  intro phrase other rest otherRest derived otherDerived same bound _ _
  -- The first token tells whether there is a parenthesis; inside of it there are fewer tokens.
  rcases primary_cases derived with
    ⟨token, alone, rfl⟩ | ⟨opening, inner, closing, opens, innerAt, closes, rfl⟩ <;>
  rcases primary_cases otherDerived with
    ⟨token', alone', rfl⟩ | ⟨opening', inner', closing', opens', innerAt', closes', rfl⟩
  · simpa [tokens] using same
  · obtain ⟨rfl, _⟩ : token = opening' ∧ _ := by simpa [tokens] using same
    simp [IsAtom, opens'] at alone
  · obtain ⟨rfl, _⟩ : opening = token' ∧ _ := by simpa [tokens] using same
    simp [IsAtom, opens] at alone'
  · simp only [tokens, List.cons_append, List.append_assoc, List.nil_append, List.cons.injEq,
      List.length_cons] at same bound
    obtain ⟨rfl, sameInner⟩ := same
    obtain ⟨rfl, after⟩ := inside innerAt innerAt' sameInner (by omega)
      (stops_of_kind _ (.inr closes) 0) (stops_of_kind _ (.inr closes') 0)
    obtain ⟨rfl, rfl⟩ := List.cons.inj after
    exact ⟨rfl, rfl⟩

theorem unary_cases {phrase : Phrase} (derived : phrase.At 7) :
    (∃ operator operand, (operator.kind = .symbol .bang ∨ operator.kind = .symbol .minus) ∧
      operand.At 7 ∧ phrase = .unary operator operand) ∨ phrase.At 8 := by
  cases derived with
  | unary kind derived => exact .inl ⟨_, _, kind, derived, rfl⟩
  | binary kind => simp [operators] at kind
  | tighter derived => exact .inr derived

/-- No primary expression begins with an operator. -/
theorem primary_head {operator : Token} {more rest : List Token} {phrase : Phrase}
    (kind : operator.kind = .symbol .bang ∨ operator.kind = .symbol .minus)
    (derived : phrase.At 8) (same : operator :: more = phrase.tokens ++ rest) : False := by
  rcases primary_cases derived with ⟨token, alone, rfl⟩ | ⟨opening, _, _, opens, _, _, rfl⟩
  · obtain ⟨rfl, _⟩ : operator = token ∧ _ := by simpa [tokens] using same
    rcases kind with kind | kind <;> simp [IsAtom, kind] at alone
  · obtain ⟨rfl, _⟩ : operator = opening ∧ _ := by simpa [tokens] using same
    rcases kind with kind | kind <;> simp [kind] at opens

private theorem unique_unary {count : Nat} (inside : Unique 7 count)
    (primary : Unique 8 (count + 1)) : Unique 7 (count + 1) := by
  intro phrase other rest otherRest derived otherDerived same bound stops otherStops
  rcases unary_cases derived with ⟨operator, operand, kind, operandAt, rfl⟩ | derived <;>
  rcases unary_cases otherDerived with ⟨operator', operand', kind', operandAt', rfl⟩ | otherDerived
  · simp only [tokens, List.cons_append, List.cons.injEq, List.length_cons] at same bound
    obtain ⟨rfl, sameOperand⟩ := same
    obtain ⟨rfl, rfl⟩ :=
      inside operandAt operandAt' sameOperand (by omega) stops otherStops
    exact ⟨rfl, rfl⟩
  · exact (primary_head kind otherDerived same).elim
  · exact (primary_head kind' derived same.symm).elim
  · exact primary derived otherDerived same bound (stops.mono (by decide))
      (otherStops.mono (by decide))

/-- What follows an operand of a chain does not belong to the operand. -/
private theorem stops_links {links : List (Token × Phrase)} {rest : List Token}
    (linked : Links level links) (stops : Stops level rest) :
    Stops (level + 1) (linkTokens links ++ rest) := by
  cases links with
  | nil => exact stops.mono (Nat.le_succ level)
  | cons link links => exact stops_operator _ (linked link List.mem_cons_self).1

private theorem unique_links {count : Nat} (operands : Unique (level + 1) count)
    {links others : List (Token × Phrase)} {rest otherRest : List Token}
    (linked : Links level links) (othersLinked : Links level others)
    (same : linkTokens links ++ rest = linkTokens others ++ otherRest)
    (bound : (linkTokens links ++ rest).length ≤ count)
    (stops : Stops level rest) (otherStops : Stops level otherRest) :
    links = others ∧ rest = otherRest := by
  induction links generalizing others with
  | nil =>
    cases others with
    | nil => exact ⟨rfl, same⟩
    | cons link others =>
      -- An operator of the level would follow the other expression.
      have follows : link.1 ∈ rest.head? := by
        have same' : rest = _ := same
        rw [same']; rfl
      exact absurd (othersLinked link List.mem_cons_self).1 ((stops _ follows).1 level le_rfl)
  | cons link links ih =>
    have ⟨operatorKind, operandAt⟩ := linked link List.mem_cons_self
    cases others with
    | nil =>
      have follows : link.1 ∈ otherRest.head? := by
        have same' : _ = otherRest := same
        rw [← same']; rfl
      exact absurd operatorKind ((otherStops _ follows).1 level le_rfl)
    | cons link' others =>
      have laterLinked : Links level links := fun l member => linked l (.tail _ member)
      have laterOthers : Links level others := fun l member => othersLinked l (.tail _ member)
      simp only [linkTokens, List.flatMap_cons, List.cons_append, List.append_assoc,
        List.cons.injEq, List.length_cons] at same bound
      obtain ⟨sameOperator, sameOperand⟩ := same
      obtain ⟨operandEq, sameLater⟩ := operands operandAt
        (othersLinked link' List.mem_cons_self).2 sameOperand (by omega)
        (stops_links laterLinked stops) (stops_links laterOthers otherStops)
      have shorter : (linkTokens links ++ rest).length ≤ count := by
        rw [List.length_append] at bound
        exact (Nat.le_add_left _ _).trans (Nat.le_of_succ_le bound)
      obtain ⟨rfl, rfl⟩ := ih laterLinked laterOthers sameLater shorter
      exact ⟨by rw [Prod.ext sameOperator operandEq], rfl⟩

private theorem unique_chain {count : Nat} (low : 1 ≤ level) (high : level ≤ 6)
    (operands : Unique (level + 1) count) : Unique level count := by
  intro phrase other rest otherRest derived otherDerived same bound stops otherStops
  obtain ⟨first, links, firstAt, linked, rfl⟩ := derived.exists_chain low high
  obtain ⟨first', links', firstAt', linked', rfl⟩ := otherDerived.exists_chain low high
  rw [tokens_chain, List.append_assoc] at same bound
  rw [tokens_chain, List.append_assoc] at same
  obtain ⟨rfl, sameLinks⟩ := operands firstAt firstAt' same bound
    (stops_links linked stops) (stops_links linked' otherStops)
  have shorter : (linkTokens links ++ rest).length ≤ count := by
    rw [List.length_append] at bound
    exact (Nat.le_add_left _ _).trans bound
  obtain ⟨rfl, rfl⟩ :=
    unique_links operands linked linked' sameLinks shorter stops otherStops
  exact ⟨rfl, rfl⟩

theorem assign_cases {phrase : Phrase} (derived : phrase.At 0) :
    (∃ target equals value, equals.kind = .symbol .assign ∧ target.At 1 ∧ value.At 0 ∧
      phrase = .assign target equals value) ∨ phrase.At 1 := by
  cases derived with
  | binary kind => simp [operators] at kind
  | assign kind first second => exact .inl ⟨_, _, _, kind, first, second, rfl⟩
  | tighter derived => exact .inr derived

private theorem unique_assign {count : Nat} (inside : Unique 0 count)
    (target : Unique 1 (count + 1)) : Unique 0 (count + 1) := by
  intro phrase other rest otherRest derived otherDerived same bound stops otherStops
  rcases assign_cases derived with ⟨left, equals, value, kind, leftAt, valueAt, rfl⟩ | derived <;>
  rcases assign_cases otherDerived with
    ⟨left', equals', value', kind', leftAt', valueAt', rfl⟩ | otherDerived
  · simp only [tokens, List.append_assoc, List.cons_append] at same bound
    obtain ⟨rfl, after⟩ := target leftAt leftAt' same bound (stops_assign _ kind)
      (stops_assign _ kind')
    obtain ⟨rfl, sameValue⟩ := List.cons.inj after
    have shorter : (value.tokens ++ rest).length ≤ count := by
      simp only [List.length_append, List.length_cons] at bound ⊢
      omega
    obtain ⟨rfl, rfl⟩ := inside valueAt valueAt' sameValue shorter stops otherStops
    exact ⟨rfl, rfl⟩
  -- If only one of them is an assignment, its equals sign follows the other.
  · simp only [tokens, List.append_assoc, List.cons_append] at same bound
    obtain ⟨_, rfl⟩ := target leftAt otherDerived same bound (stops_assign _ kind)
      (otherStops.mono (Nat.zero_le 1))
    exact absurd kind ((otherStops equals rfl).2 rfl)
  · simp only [tokens, List.append_assoc, List.cons_append] at same
    obtain ⟨_, rfl⟩ := target derived leftAt' same bound (stops.mono (Nat.zero_le 1))
      (stops_assign _ kind')
    exact absurd kind' ((stops equals' rfl).2 rfl)
  · exact target derived otherDerived same bound (stops.mono (Nat.zero_le 1))
      (otherStops.mono (Nat.zero_le 1))

private theorem unique_of_count (count level : Nat) : Unique level count := by
  induction count generalizing level with
  | zero =>
    intro phrase _ rest _ _ _ _ bound
    have filled := List.length_pos_iff.mpr (tokens_ne_nil phrase)
    rw [List.length_append] at bound
    omega
  | succ count ih =>
    -- Each level rests on the next one; only parentheses, operands of unary operators and
    -- values of assignments go back to a looser level, and they have fewer tokens.
    have unary := unique_unary (ih 7) (unique_primary (ih 0))
    have chained : ∀ above ≤ 6, Unique (7 - above) (count + 1) := by
      intro above bound
      induction above with
      | zero => exact unary
      | succ above chained =>
        have next := chained (Nat.le_of_succ_le bound)
        have step : 7 - above = 7 - (above + 1) + 1 := by omega
        exact unique_chain (by omega) (by omega) (step ▸ next)
    rcases Nat.lt_or_ge 8 level with beyond | bound
    · intro phrase _ _ _ derived
      exact absurd derived.level_le (Nat.not_le_of_lt beyond)
    · interval_cases level
      · exact unique_assign (ih 0) (chained 6 le_rfl)
      · exact chained 6 (by decide)
      · exact chained 5 (by decide)
      · exact chained 4 (by decide)
      · exact chained 3 (by decide)
      · exact chained 2 (by decide)
      · exact chained 1 (by decide)
      · exact unary
      · exact unique_primary (ih 0)

/-- An expression is determined by the tokens in front of which it begins. -/
theorem At.unique {phrase other : Phrase} {rest otherRest : List Token}
    (derived : phrase.At level) (otherDerived : other.At level)
    (same : phrase.tokens ++ rest = other.tokens ++ otherRest) (stops : Stops level rest)
    (otherStops : Stops level otherRest) : phrase = other ∧ rest = otherRest :=
  unique_of_count _ level derived otherDerived same le_rfl stops otherStops

end Phrase

/-! ### Declarations and statements -/

namespace Clause

variable {nonterminal : Nonterminal} {clause : Clause}

def NoElse (rest : List Token) : Prop :=
  ∀ next ∈ rest.head?, next.kind ≠ .keyword .else_

/-- Whether no further declaration follows: the tokens are over, or a block is. -/
def Ends (rest : List Token) : Prop :=
  ∀ next ∈ rest.head?, next.kind = .symbol .rightBrace

def Unique (clause : Clause) : Prop :=
  ∀ ⦃nonterminal : Nonterminal⦄ ⦃other : Clause⦄ ⦃rest otherRest : List Token⦄,
    other.From nonterminal → clause.tokens ++ rest = other.tokens ++ otherRest →
    (clause.isOpen = true → NoElse rest) → (other.isOpen = true → NoElse otherRest) →
    clause = other ∧ rest = otherRest

/-- No `else` comes between declarations. -/
theorem noElse_of_all {clauses : List Clause} {rest : List Token}
    (derived : ∀ clause ∈ clauses, clause.From .declaration) (ends : Ends rest) :
    NoElse (allTokens clauses ++ rest) := by
  intro next first
  cases clauses with
  | nil => simp [ends next first]
  | cons clause clauses =>
    obtain ⟨head, more, same, _, noFollow⟩ := (derived clause List.mem_cons_self).exists_head
    obtain rfl : head = next := by simpa [allTokens, same] using first
    exact fun kind => noFollow (.inl kind)

theorem not_ends_of_all {clauses : List Clause} {rest : List Token}
    (derived : clause.From .declaration) : ¬ Ends (allTokens (clause :: clauses) ++ rest) := by
  intro ends
  obtain ⟨head, more, same, _, noFollow⟩ := derived.exists_head
  exact noFollow (.inr (ends head (by simp [allTokens, same])))

private theorem unique_all {clauses others : List Clause} {rest otherRest : List Token}
    (each : ∀ clause ∈ clauses, clause.Unique)
    (derived : ∀ clause ∈ clauses, clause.From .declaration)
    (otherDerived : ∀ clause ∈ others, clause.From .declaration)
    (same : allTokens clauses ++ rest = allTokens others ++ otherRest)
    (ends : Ends rest) (otherEnds : Ends otherRest) : clauses = others ∧ rest = otherRest := by
  induction clauses generalizing others with
  | nil =>
    cases others with
    | nil => exact ⟨rfl, same⟩
    | cons other others =>
      have same : rest = _ := same
      exact absurd (same ▸ ends) (not_ends_of_all (otherDerived other List.mem_cons_self))
  | cons clause clauses ih =>
    cases others with
    | nil =>
      have same : _ = otherRest := same
      exact absurd (same ▸ otherEnds) (not_ends_of_all (derived clause List.mem_cons_self))
    | cons other others =>
      have later := fun next member => derived next (.tail clause member)
      have otherLater := fun next member => otherDerived next (.tail other member)
      rw [allTokens, allTokens, List.append_assoc, List.append_assoc] at same
      -- The first clauses are the same, and so is what follows them.
      obtain ⟨rfl, sameLater⟩ := each clause List.mem_cons_self
        (otherDerived other List.mem_cons_self) same
        (fun _ => noElse_of_all later ends) (fun _ => noElse_of_all otherLater otherEnds)
      obtain ⟨rfl, rfl⟩ :=
        ih (fun next member => each next (.tail clause member)) later otherLater sameLater
      exact ⟨rfl, rfl⟩

theorem form_eq {other : Clause} {otherNonterminal : Nonterminal} {rest otherRest : List Token}
    (derived : clause.From nonterminal) (otherDerived : other.From otherNonterminal)
    (same : clause.tokens ++ rest = other.tokens ++ otherRest) : clause.form = other.form := by
  obtain ⟨first, more, tokensEq, kind, _⟩ := derived.exists_head
  obtain ⟨first', more', tokensEq', kind', _⟩ := otherDerived.exists_head
  rw [tokensEq, tokensEq'] at same
  rw [← kind, ← kind', (List.cons.inj same).1]

/-- An expression in front of a token that ends it. -/
private theorem unique_before {value other : Phrase} {next otherNext : Token}
    {rest otherRest : List Token} (derived : value.At 0) (otherDerived : other.At 0)
    (ends : next.kind = .symbol .semicolon ∨ next.kind = .symbol .rightParen)
    (otherEnds : otherNext.kind = .symbol .semicolon ∨ otherNext.kind = .symbol .rightParen)
    (same : value.tokens ++ next :: rest = other.tokens ++ otherNext :: otherRest) :
    value = other ∧ next = otherNext ∧ rest = otherRest := by
  obtain ⟨sameValue, after⟩ := derived.unique otherDerived same (stops_of_kind _ ends 0)
    (stops_of_kind _ otherEnds 0)
  exact ⟨sameValue, List.cons.inj after⟩

private theorem unique_var {keyword name semicolon : Token}
    (derived : From .declaration (.var keyword name semicolon)) :
    Unique (.var keyword name semicolon) := by
  intro nonterminal other rest otherRest otherDerived same _ _
  have forms := form_eq derived otherDerived same
  -- Only declarations of variables begin with the same keyword.
  cases other <;> simp [form] at forms
  · simpa [tokens, and_assoc] using same
  · -- A declaration with a value has its equals sign where the semicolon is.
    obtain ⟨_, _, rfl, _⟩ := by simpa [tokens] using same
    cases derived with
    | statement derived => cases derived
    | var _ _ ends =>
      cases otherDerived.toDeclaration with
      | statement derived => cases derived
      | varInit _ _ sets => simp [sets] at ends

private theorem unique_varInit {keyword name equals semicolon : Token} {value : Phrase}
    (derived : From .declaration (.varInit keyword name equals value semicolon)) :
    Unique (.varInit keyword name equals value semicolon) := by
  intro nonterminal other rest otherRest otherDerived same _ _
  have forms := form_eq derived otherDerived same
  cases derived with
  | statement derived => cases derived
  | varInit _ _ sets valueAt ends =>
    cases other <;> simp [form] at forms
    · obtain ⟨_, _, rfl, _⟩ := by simpa [tokens] using same
      cases otherDerived.toDeclaration with
      | statement derived => cases derived
      | var _ _ ends => simp [sets] at ends
    · cases otherDerived.toDeclaration with
      | statement derived => cases derived
      | varInit _ _ _ otherAt otherEnds =>
        obtain ⟨rfl, rfl, rfl, sameValue⟩ := by simpa [tokens] using same
        obtain ⟨rfl, rfl, rfl⟩ :=
          unique_before valueAt otherAt (.inl ends) (.inl otherEnds) sameValue
        exact ⟨rfl, rfl⟩

private theorem unique_expression {value : Phrase} {semicolon : Token}
    (derived : From .statement (.expression value semicolon)) :
    Unique (.expression value semicolon) := by
  intro nonterminal other rest otherRest otherDerived same _ _
  have forms := form_eq derived otherDerived same
  cases derived with
  | expression valueAt ends =>
    cases other <;> simp [form] at forms
    cases otherDerived.toStatement (by simp [form]) with
    | expression otherAt otherEnds =>
      obtain ⟨rfl, rfl, rfl⟩ := unique_before valueAt otherAt (.inl ends) (.inl otherEnds)
        (by simpa [tokens] using same)
      exact ⟨rfl, rfl⟩

private theorem unique_print {keyword semicolon : Token} {value : Phrase}
    (derived : From .statement (.print keyword value semicolon)) :
    Unique (.print keyword value semicolon) := by
  intro nonterminal other rest otherRest otherDerived same _ _
  have forms := form_eq derived otherDerived same
  cases derived with
  | print _ valueAt ends =>
    cases other <;> simp [form] at forms
    cases otherDerived.toStatement (by simp [form]) with
    | print _ otherAt otherEnds =>
      obtain ⟨rfl, sameValue⟩ := by simpa [tokens] using same
      obtain ⟨rfl, rfl, rfl⟩ :=
        unique_before valueAt otherAt (.inl ends) (.inl otherEnds) sameValue
      exact ⟨rfl, rfl⟩

private theorem unique_block {opening closing : Token} {body : List Clause}
    (derived : From .statement (.block opening body closing))
    (each : ∀ clause ∈ body, clause.Unique) : Unique (.block opening body closing) := by
  intro nonterminal other rest otherRest otherDerived same _ _
  have forms := form_eq derived otherDerived same
  cases derived with
  | block _ bodyDerived closes =>
    cases other <;> simp [form] at forms
    cases otherDerived.toStatement (by simp [form]) with
    | block _ otherBody otherCloses =>
      obtain ⟨rfl, sameBody⟩ := by simpa [tokens] using same
      obtain ⟨rfl, after⟩ := unique_all each bodyDerived otherBody sameBody
        (by simpa [Ends] using closes) (by simpa [Ends] using otherCloses)
      obtain ⟨rfl, rfl⟩ := List.cons.inj after
      exact ⟨rfl, rfl⟩

private theorem unique_ifThen {keyword opening closing : Token} {condition : Phrase}
    {consequent : Clause}
    (derived : From .statement (.ifThen keyword opening condition closing consequent))
    (branch : consequent.Unique) :
    Unique (.ifThen keyword opening condition closing consequent) := by
  intro nonterminal other rest otherRest otherDerived same noElse otherNoElse
  have forms := form_eq derived otherDerived same
  cases derived with
  | ifThen _ _ tested closes first =>
    cases other <;> simp [form] at forms
    · cases otherDerived.toStatement (by simp [form]) with
      | ifThen _ _ otherTested otherCloses otherFirst =>
        obtain ⟨rfl, rfl, sameCondition⟩ := by simpa [tokens] using same
        obtain ⟨rfl, rfl, sameBranch⟩ :=
          unique_before tested otherTested (.inr closes) (.inr otherCloses) sameCondition
        obtain ⟨rfl, rfl⟩ :=
          branch otherFirst sameBranch (fun _ => noElse rfl) (fun _ => otherNoElse rfl)
        exact ⟨rfl, rfl⟩
    · cases otherDerived.toStatement (by simp [form]) with
      | ifElse _ _ otherTested otherCloses otherFirst nearest elseWord _ =>
        obtain ⟨rfl, rfl, sameCondition⟩ := by simpa [tokens] using same
        obtain ⟨rfl, rfl, sameBranch⟩ :=
          unique_before tested otherTested (.inr closes) (.inr otherCloses) sameCondition
        -- The `else` would follow an `if` that is still open.
        obtain ⟨_, rfl⟩ :=
          branch otherFirst sameBranch (fun _ => noElse rfl) (by simp [nearest])
        exact absurd elseWord (noElse rfl _ rfl)

private theorem unique_ifElse {keyword opening closing otherwise : Token} {condition : Phrase}
    {consequent alternative : Clause}
    (derived : From .statement
      (.ifElse keyword opening condition closing consequent otherwise alternative))
    (branch : consequent.Unique) (otherBranch : alternative.Unique) :
    Unique (.ifElse keyword opening condition closing consequent otherwise alternative) := by
  intro nonterminal other rest otherRest otherDerived same noElse otherNoElse
  have forms := form_eq derived otherDerived same
  cases derived with
  | ifElse _ _ tested closes first nearest elseWord second =>
    cases other <;> simp [form] at forms
    · cases otherDerived.toStatement (by simp [form]) with
      | ifThen _ _ otherTested otherCloses otherFirst =>
        obtain ⟨rfl, rfl, sameCondition⟩ := by simpa [tokens] using same
        obtain ⟨rfl, rfl, sameBranch⟩ :=
          unique_before tested otherTested (.inr closes) (.inr otherCloses) sameCondition
        obtain ⟨_, rfl⟩ :=
          branch otherFirst sameBranch (by simp [nearest]) (fun _ => otherNoElse rfl)
        exact absurd elseWord (otherNoElse rfl _ rfl)
    · cases otherDerived.toStatement (by simp [form]) with
      | ifElse _ _ otherTested otherCloses otherFirst otherNearest otherWord otherSecond =>
        obtain ⟨rfl, rfl, sameCondition⟩ := by simpa [tokens] using same
        obtain ⟨rfl, rfl, sameBranch⟩ :=
          unique_before tested otherTested (.inr closes) (.inr otherCloses) sameCondition
        -- No `if` in the branches is open, so their first tokens decide where they end.
        obtain ⟨rfl, afterElse⟩ :=
          branch otherFirst sameBranch (by simp [nearest]) (by simp [otherNearest])
        obtain ⟨rfl, sameAlternative⟩ := List.cons.inj afterElse
        obtain ⟨rfl, rfl⟩ := otherBranch otherSecond sameAlternative noElse otherNoElse
        exact ⟨rfl, rfl⟩

/-- A clause is determined by the tokens in front of which it begins and by whether an
`else` follows. -/
theorem From.unique (derived : clause.From nonterminal) : clause.Unique := by
  induction derived with
  | statement _ ih => exact ih
  | var word named ends => exact unique_var (.var word named ends)
  | varInit word named sets value ends => exact unique_varInit (.varInit word named sets value ends)
  | expression value ends => exact unique_expression (.expression value ends)
  | print word value ends => exact unique_print (.print word value ends)
  | block opens body closes each => exact unique_block (.block opens body closes) each
  | ifThen word opens tested closes first ih =>
    exact unique_ifThen (.ifThen word opens tested closes first) ih
  | ifElse word opens tested closes first nearest elseWord second ih alternativeIh =>
    exact unique_ifElse (.ifElse word opens tested closes first nearest elseWord second) ih
      alternativeIh

end Clause

/-- A program has one derivation. -/
theorem Derives.unique {clauses others : List Clause} {tokens : List Token}
    (derived : Derives clauses tokens) (otherDerived : Derives others tokens) :
    clauses = others := by
  have same : Clause.allTokens clauses ++ [] = Clause.allTokens others ++ [] := by
    rw [derived.2, otherDerived.2]
  have finished : Clause.Ends [] := by simp [Clause.Ends]
  have each := fun clause member => (derived.1 clause member).unique
  exact (Clause.unique_all each derived.1 otherDerived.1 same finished finished).1

end BlockScript.Grammar
