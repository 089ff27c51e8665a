import BlockScript.Proofs.Grammar.Soundness

/-!
# The parser accepts its grammar

## Main result

`ofTokens_iff_derives`: a list of tokens is parsed without a fatal error exactly if its text
can be derived. The derivation is the only one; the program is its tree, and the errors are
the equals signs of its bad assignment targets.

The text of a list of tokens is what stands in front of the first mark of the end.
-/

namespace BlockScript.Grammar

open Parse

/-- Only a bad assignment target leaves its declaration in the program. -/
theorem message_eq_iff (error : Error) :
    error.report.message = "Invalid assignment target." ↔ error.fault.isFatal = false := by
  rcases error with ⟨fault, token⟩
  cases fault with
  | missing expected =>
    cases expected <;> simp [Error.report, SyntaxError.atToken, Fault.message,
      Expectation.message, Fault.isFatal]
  | noExpression =>
    simp [Error.report, SyntaxError.atToken, Fault.message, Fault.isFatal]
  | badTarget => exact ⟨fun _ => rfl, fun _ => rfl⟩

/-- **The parser accepts its grammar.** A text is derivable exactly if the parser complains
about nothing but assignment targets; then it has one derivation, the complaints are about
the equals signs of the derivation's bad targets, and the program is its tree. -/
theorem ofTokens_iff_derives (tokens : List Token) :
    let text := tokens.takeWhile (fun token => !token.isEnd)
    let result := Parse.ofTokens tokens
    ((∀ error ∈ result.errors, error.report.message = "Invalid assignment target.") ↔
      ∃ clauses, Derives clauses text) ∧
    (∀ clauses, Derives clauses text →
      (∀ others, Derives others text → others = clauses) ∧
      result.errors = (Clause.allBadTargets clauses).map (Error.mk .badTarget) ∧
      result.program = Clause.allStmts clauses) := by
  intro text result
  refine ⟨⟨fun mild => ?_, ?_⟩, fun clauses derived => ?_⟩
  · obtain ⟨clauses, each, _, _, whole⟩ := exists_derivation tokens
    -- Errors that are no fatal ones spoil nothing, so the whole text is derived.
    have sound : ¬ Spoiled result.errors := by
      rintro ⟨error, member, fatal⟩
      have notFatal := (message_eq_iff error).mp (mild error member)
      rw [notFatal] at fatal
      cases fatal
    exact ⟨clauses, each, whole sound⟩
  · rintro ⟨clauses, derived⟩ error member
    have errors : result.errors = _ := congrArg Result.errors derived.ofTokens_eq
    rw [errors] at member
    obtain ⟨equals, _, rfl⟩ := List.mem_map.mp member
    exact (message_eq_iff _).mpr rfl
  · have read := derived.ofTokens_eq
    exact ⟨fun others otherDerived => otherDerived.unique derived,
      congrArg Result.errors read, congrArg Result.program read⟩

end BlockScript.Grammar
