import BlockScript.Parse.Program

/-!
# Closing waiting operators

## Main results

`close_reduce`: what is closed when an operator comes is closed in the same way when the
expression ends.
`close_badTargets`: closing an expression only adds errors, and only those of bad targets.
`length_outside_lt`: outside of the closed expression fewer frames wait.
-/

namespace BlockScript.Parse

/-- Operators that are closed at once need not be closed at the end. -/
theorem close_reduce (errors : List Error) (precedence : Nat) (frames : List Frame)
    (operand : Expr) :
    close errors (reduce precedence frames operand).1 (reduce precedence frames operand).2 =
      close errors frames operand := by
  fun_induction reduce precedence frames operand with
  | case1 operator rest operand ih => rw [ih, close]
  | case2 left operator level rest operand tighter ih => rw [ih, close]
  | case3 | case4 => rfl

theorem close_badTargets (errors : List Error) (frames : List Frame) (operand : Expr) :
    ∃ targets : List Error, (∀ error ∈ targets, error.fault = .badTarget) ∧
      (close errors frames operand).badTargets = targets ++ errors := by
  fun_induction close errors frames operand with
  | case1 _ _ _ _ ih | case2 _ _ _ _ _ _ ih | case3 _ _ _ _ _ ih => exact ih
  | case4 errors target equals rest operand _ ih =>
    obtain ⟨targets, bad, same⟩ := ih
    refine ⟨targets ++ [⟨.badTarget, equals⟩], ?_, by simp [same]⟩
    intro error member
    rcases List.mem_append.mp member with earlier | last
    · exact bad error earlier
    · rw [List.mem_singleton.mp last]
  | case5 | case6 => exact ⟨[], by simp, rfl⟩

theorem length_outside_lt {errors : List Error} {frames rest : List Frame} {operand : Expr}
    (outside : (close errors frames operand).outside = some rest) :
    rest.length < frames.length := by
  fun_induction close errors frames operand with
  | case1 _ _ _ _ ih | case2 _ _ _ _ _ _ ih | case3 _ _ _ _ _ ih | case4 _ _ _ _ _ _ ih =>
    exact Nat.lt_succ_of_lt (ih outside)
  | case5 =>
    cases outside
    exact Nat.lt_succ_self _
  | case6 => cases outside

end BlockScript.Parse
