import BlockScript.Proofs.Grammar.Soundness
import Mathlib.Data.List.TakeWhile

/-!
# Programs in a row

## Main result

`ofTokens_append`: two texts without errors, one behind the other, are one without errors. It
is read as the statements of the first and then those of the second.

## Proof strategy

A text without errors is derived as a whole, and derivations can be put in a row. That the
parser reads what is derived needs no second look at what it does between the two texts.
-/

namespace BlockScript.Grammar

open Parse

/-- What stands in front of the mark of the end. -/
def text (tokens : List Token) : List Token :=
  tokens.takeWhile (fun token => !token.isEnd)

theorem plain_text (tokens : List Token) : ∀ token ∈ text tokens, token.isEnd = false := by
  intro token member
  simpa using List.mem_takeWhile_imp member

theorem text_append {tokens : List Token} (plain : ∀ token ∈ tokens, token.isEnd = false)
    (more : List Token) : text (tokens ++ more) = tokens ++ text more :=
  List.takeWhile_append_of_pos (by simpa using plain)

theorem Clause.allBadTargets_append (clauses more : List Clause) :
    allBadTargets (clauses ++ more) = allBadTargets clauses ++ allBadTargets more := by
  induction clauses with
  | nil => rfl
  | cons clause clauses ih => simp [allBadTargets, ih]

theorem Derives.append {clauses more : List Clause} {tokens others : List Token}
    (first : Derives clauses tokens) (second : Derives more others) :
    Derives (clauses ++ more) (tokens ++ others) := by
  constructor
  · intro clause member
    rcases List.mem_append.mp member with before | after
    · exact first.1 clause before
    · exact second.1 clause after
  · rw [Clause.allTokens_append, first.2, second.2]

/-- A text without errors is derived without rejected assignments. -/
theorem exists_derives {tokens : List Token} (noErrors : (ofTokens tokens).errors = []) :
    ∃ clauses, Derives clauses (text tokens) ∧ Clause.allBadTargets clauses = [] ∧
      (ofTokens tokens).program = Clause.allStmts clauses := by
  obtain ⟨clauses, each, program, _, whole⟩ := exists_derivation tokens
  have sound : ¬ Spoiled (ofTokens tokens).errors := by
    rintro ⟨error, member, _⟩
    rw [noErrors] at member
    cases member
  have derived : Derives clauses (text tokens) := ⟨each, whole sound⟩
  refine ⟨clauses, derived, ?_, program⟩
  rw [derived.ofTokens_eq] at noErrors
  exact List.map_eq_nil_iff.mp noErrors

/-- Texts without errors can be put in a row. -/
theorem ofTokens_append {tokens more whole : List Token}
    (row : text whole = text tokens ++ text more) (noErrors : (ofTokens tokens).errors = [])
    (noMore : (ofTokens more).errors = []) :
    ofTokens whole = ⟨(ofTokens tokens).program ++ (ofTokens more).program, []⟩ := by
  obtain ⟨clauses, derived, kept, program⟩ := exists_derives noErrors
  obtain ⟨others, derivedMore, keptMore, programMore⟩ := exists_derives noMore
  have both : Derives (clauses ++ others) (text whole) := row ▸ derived.append derivedMore
  rw [both.ofTokens_eq, Clause.allStmts_append, Clause.allBadTargets_append, kept, keptMore,
    program, programMore]
  rfl

end BlockScript.Grammar
