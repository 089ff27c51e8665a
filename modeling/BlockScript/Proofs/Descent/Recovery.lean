import BlockScript.Proofs.Descent.Expression

/-!
# Recovery by descent

## Main results

`synchronize_ends`: recovery ends, at the first place behind the token that it leaves where a
declaration may begin.
`outcome_fail_eq`: a fold that gives up at that token begins a declaration at the same place.

## Proof strategy

A fold recovers token by token, so it is compared place by place with the cursor. What it is
reading at a place depends on the token in front of it alone (`recoveryMode`).
-/

namespace BlockScript.Descent

open Parse Grammar

/-- Whether a declaration may begin at a place behind an error. -/
def Boundary (tokens : List Token) (place : Nat) : Prop :=
  limit tokens ≤ place ∨ (front tokens (place - 1)).kind = .symbol .semicolon ∨
    opensDeclaration (front tokens place) = true

/-- Whether a descent has gone on to the first boundary. -/
structure Resumes (tokens : List Token) (start next : Descent) : Prop where
  reaches : start.position ≤ next.position
  inside : next.position ≤ limit tokens
  errors_eq : next.errors = start.errors
  stops : Boundary tokens next.position
  skips : ∀ place, start.position ≤ place → place < next.position → ¬ Boundary tokens place

section

variable {tokens : List Token} {start next : Descent}

theorem Resumes.here (inside : start.position ≤ limit tokens)
    (stops : Boundary tokens start.position) : Resumes tokens start start where
  reaches := Nat.le_refl _
  inside := inside
  errors_eq := rfl
  stops := stops
  skips _ above below := absurd above (Nat.not_le_of_lt below)

theorem Resumes.behind (goesOn : ¬ Boundary tokens start.position)
    (resumes : Resumes tokens (moved start) next) : Resumes tokens start next where
  reaches := Nat.le_of_succ_le resumes.reaches
  inside := resumes.inside
  errors_eq := resumes.errors_eq
  stops := resumes.stops
  skips place above below := by
    rcases Nat.eq_or_lt_of_le above with rfl | beyond
    · exact goesOn
    · exact resumes.skips place beyond below

/-! ### The cursor -/

section

variable (inside : start.position ≤ limit tokens)
include inside

theorem resume_ends : Walk.Ends tokens resume start fun _ next => Resumes tokens start next := by
  induction remains : limit tokens - start.position generalizing start with
  | zero =>
    have atEnd : limit tokens ≤ start.position := Nat.le_of_sub_eq_zero remains
    refine .of_succ ?_
    simp only [resume]
    refine .after (isAtEnd_eq inside) ?_
    simp only [decide_eq_true atEnd, if_true]
    exact .of_pure (.here inside (.inl atEnd))
  | succ rest ih =>
    have before : start.position < limit tokens := Nat.lt_of_sub_eq_succ remains
    refine .of_succ ?_
    simp only [resume]
    refine .after (isAtEnd_eq inside) ?_
    simp only [decide_eq_false (Nat.not_le_of_lt before), Bool.false_eq_true, if_false]
    refine .after (previous_eq inside) ?_
    by_cases ends : (front tokens (start.position - 1)).kind = .symbol .semicolon
    · simp only [if_pos ends]
      exact .of_pure (.here inside (.inr (.inl ends)))
    · simp only [if_neg ends]
      refine .after (peek_eq inside) ?_
      by_cases opens : opensDeclaration (front tokens start.position) = true
      · simp only [if_pos opens]
        exact .of_pure (.here inside (.inr (.inr opens)))
      · simp only [if_neg opens]
        have goesOn : ¬ Boundary tokens start.position := by
          simp [Boundary, before, ends, opens]
        refine .after (advance_of_lt inside before) ?_
        have left : limit tokens - (moved start).position = rest := by
          change limit tokens - (start.position + 1) = rest
          omega
        exact (@ih (moved start) before left).mono fun _ _ resumes => resumes.behind goesOn

/-- **Recovery ends.** It leaves the token at the cursor, unless that is the mark, and then goes on
to the first place where a declaration may begin. -/
theorem synchronize_ends : Walk.Ends tokens synchronize start fun _ next =>
    Resumes tokens { start with position := min (start.position + 1) (limit tokens) } next := by
  unfold synchronize
  rcases Nat.lt_or_ge start.position (limit tokens) with before | atEnd
  · refine .after (advance_of_lt inside before) ?_
    rw [min_eq_left (Nat.succ_le_of_lt before)]
    exact resume_ends before
  · refine .after (advance_of_ge inside atEnd) ?_
    rw [min_eq_right (Nat.le_succ_of_le atEnd), Nat.le_antisymm atEnd inside]
    exact resume_ends inside

end

/-! ### The fold -/

section

variable {contexts : List Context} {program : List Stmt} {errors : List Error}

/-- What a fold reads at a place while it recovers. -/
def recoveryMode (tokens : List Token) (place : Nat) : Mode :=
  if (front tokens (place - 1)).kind = .symbol .semicolon then .declaration else .recovering

theorem readDeclaration_mode (mode other : Mode) (token : Token) :
    State.readDeclaration ⟨mode, contexts, program, errors⟩ token =
      State.readDeclaration ⟨other, contexts, program, errors⟩ token := by
  simp only [State.readDeclaration]
  split
  · rfl
  · rfl
  · exact Clause.readStatement_mode _ _ _ _ _ token

theorem step_recovering {place : Nat} (goesOn : ¬ Boundary tokens place) :
    State.step ⟨recoveryMode tokens place, contexts, program, errors⟩ (front tokens place) =
      ⟨recoveryMode tokens (place + 1), contexts, program, errors⟩ := by
  rw [Boundary, not_or, not_or] at goesOn
  obtain ⟨-, noSemicolon, opensNone⟩ := goesOn
  rw [recoveryMode, if_neg noSemicolon, recoveryMode, Nat.add_sub_cancel]
  simp only [State.step, State.readRecovering]
  split
  next ends => rw [if_pos ends]
  next word kind =>
    rw [opensDeclaration, kind] at opensNone
    rw [if_neg opensNone, kind]
    rfl
  next noEnd _ => rw [if_neg noEnd]

/-- At a boundary a fold that recovers reads the same as one that begins a declaration. -/
theorem outcome_boundary {place : Nat} (stops : Boundary tokens place) :
    outcome tokens ⟨recoveryMode tokens place, contexts, program, errors⟩ place =
      outcome tokens ⟨.declaration, contexts, program, errors⟩ place := by
  unfold recoveryMode
  split
  · rfl
  next noSemicolon =>
    rcases Nat.lt_or_ge place (limit tokens) with before | atEnd
    · have opens : opensDeclaration (front tokens place) = true :=
        (stops.resolve_left (Nat.not_le_of_lt before)).resolve_left noSemicolon
      rw [outcome_of_lt _ before, outcome_of_lt _ before, State.step, State.step,
        State.readRecovering]
      unfold opensDeclaration at opens
      split at opens
      next word kind =>
        simp only [kind, if_pos opens, readDeclaration_mode .recovering .declaration]
      next => cases opens
    · rw [outcome_of_ge _ atEnd, outcome_of_ge _ atEnd]
      rfl

theorem outcome_resumes (resumes : Resumes tokens start next) :
    outcome tokens ⟨recoveryMode tokens start.position, contexts, program, errors⟩ start.position =
      outcome tokens ⟨.declaration, contexts, program, errors⟩ next.position := by
  induction remains : next.position - start.position generalizing start with
  | zero =>
    have same : start.position = next.position :=
      Nat.le_antisymm resumes.reaches (Nat.le_of_sub_eq_zero remains)
    rw [same]
    exact outcome_boundary resumes.stops
  | succ rest ih =>
    have before : start.position < next.position := Nat.lt_of_sub_eq_succ remains
    have goesOn := resumes.skips start.position (Nat.le_refl _) before
    rw [outcome_of_lt _ (Nat.lt_of_lt_of_le before resumes.inside), step_recovering goesOn]
    refine @ih (moved start) ⟨before, resumes.inside, resumes.errors_eq, resumes.stops, ?_⟩ ?_
    · exact fun place above below => resumes.skips place (Nat.le_of_succ_le above) below
    · change next.position - (start.position + 1) = rest
      omega

/-- **A fold recovers as a descent does.** It gives up at a token, and begins a declaration where
recovery ends. -/
theorem outcome_fail_eq {mode : Mode} {fault : Fault} {place : Nat} {listed : List Error}
    (resumes : Resumes tokens ⟨min (place + 1) (limit tokens), listed⟩ next) :
    outcome tokens (State.fail ⟨mode, contexts, program, errors⟩ fault (front tokens place))
        (place + 1) =
      outcome tokens ⟨.declaration, contexts.dropWhile (fun context => !context.isBlock), program,
        ⟨fault, front tokens place⟩ :: errors⟩ next.position := by
  rcases Nat.lt_or_ge place (limit tokens) with before | atEnd
  · rw [min_eq_left (Nat.succ_le_of_lt before)] at resumes
    exact outcome_resumes resumes
  · have stays : limit tokens ≤ next.position :=
      (le_min (Nat.le_succ_of_le atEnd) (Nat.le_refl _)).trans resumes.reaches
    rw [outcome_of_ge _ (Nat.le_succ_of_le atEnd), outcome_of_ge _ stays]
    unfold State.fail
    split <;> rfl

end
end

end BlockScript.Descent
