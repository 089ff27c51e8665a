import BlockScript.Proofs.Grammar.Recovery

/-!
# Where a program ends

## Main result

`ofTokens_behind`: what is written behind a program, well-formed or not, is read as if it stood
by itself, and the program in front of it as if nothing followed. An `else` is the only token
that can reach back.

## Proof strategy

1. All that a program leaves open are `if`s that could still take an `else`. The next token
   settles them, so from there on the declarations are the same as behind a finished text
   (`IsProgram.settled_initial`, `foldl_settled`).
2. Behind finished declarations tokens are read as at the beginning (`foldl_within`), and the end
   of the text finds the same things unfinished (`finish_within`).
-/

namespace BlockScript.Grammar

open Parse

/-- The mark of the end is looked for behind the tokens that are plain. -/
theorem endMark_append {tokens more : List Token} (plain : ∀ token ∈ tokens, token.isEnd = false)
    (filled : more ≠ []) : endMark (tokens ++ more) = endMark more := by
  have noMark : tokens.find? Token.isEnd = none := by
    rw [List.find?_eq_none]
    intro token member
    simp [plain token member]
  have last : (tokens ++ more).getLast? = more.getLast? := by
    rw [List.getLast?_append, Option.or_of_isSome]
    simpa using filled
  rw [endMark, endMark, List.find?_append, noMark, Option.none_or, last]

/-- What is in hand behind a program: its statements, once the last one has been settled. -/
theorem IsProgram.settled_initial {tokens : List Token} (isProgram : IsProgram tokens) :
    settled (tokens.foldl State.step State.initial) =
      Place.program.state (ofTokens tokens).program.reverse [] := by
  have begun : settled State.initial = Place.program.state [] [] := rfl
  simpa using isProgram.settled_foldl begun

/-- Behind a program, any tokens but an `else` are read as behind its declarations. -/
theorem IsProgram.foldl_behind {tokens : List Token} (isProgram : IsProgram tokens)
    {more : List Token} (filled : more ≠ [])
    (noElse : ∀ token ∈ more.head?, token.kind ≠ .keyword .else_) :
    (tokens ++ more).foldl State.step State.initial =
      Place.program.within (ofTokens tokens).program.reverse []
        (more.foldl State.step State.initial) := by
  rw [List.foldl_append, foldl_settled filled noElse, isProgram.settled_initial, ← within_initial,
    foldl_within (.inl rfl)]

/-- **Declarations are self-delimiting.** Tokens that do not begin with an `else` are read behind
a program as they are read by themselves: their statements come behind those of the program, and
the errors are theirs. -/
theorem ofTokens_behind {tokens more : List Token} (isProgram : IsProgram tokens)
    (noElse : ∀ token ∈ more.head?, token.kind ≠ .keyword .else_) :
    ofTokens (tokens ++ more) =
      ⟨(ofTokens tokens).program ++ (ofTokens more).program, (ofTokens more).errors⟩ := by
  have whole : text (tokens ++ more) = tokens ++ text more := text_append isProgram.plain more
  by_cases filled : text more = []
  · -- The end of the text settles the program as another token would.
    rw [ofTokens, ← Grammar.text, whole, filled, List.append_nil,
      finish_settled _ isProgram.settled_initial]
    have nothing : ofTokens more = ⟨[], []⟩ := by
      rw [ofTokens, ← Grammar.text, filled]
      rfl
    simp [nothing]
  · have first : ∀ token ∈ (text more).head?, token.kind ≠ .keyword .else_ := by
      intro token member
      rw [Grammar.text, List.head?_takeWhile] at member
      exact noElse token (Option.mem_filter_iff.mp member).1
    have marked : endMark (tokens ++ more) = endMark more :=
      endMark_append isProgram.plain fun empty => filled (by rw [empty]; rfl)
    rw [ofTokens, ← Grammar.text, whole, isProgram.foldl_behind filled first, finish_within, marked]
    simp [ofTokens, Grammar.text]

/-- A brace that closes nothing and a statement that is cut off, behind an `if` that could still
take an `else`. -/
theorem ofTokens_behind_malformed :
    let before := (scan "{ a = b; } if (c) d;").tokens.dropLast
    let after := (scan "\x7d e; f; print g").tokens
    let result := ofTokens (before ++ after)
    IsProgram before ∧ (∀ token ∈ after.head?, token.kind ≠ .keyword .else_) ∧
      result.program.length = 3 ∧
      result.errors.map Error.fault = [.noExpression, .missing .semicolonAfterValue] := by
  intro before after result
  have isProgram : IsProgram before := ⟨by decide +kernel, by decide +kernel⟩
  have noElse : ∀ token ∈ after.head?, token.kind ≠ .keyword .else_ := by decide +kernel
  have read : result = _ := ofTokens_behind isProgram noElse
  refine ⟨isProgram, noElse, ?_⟩
  rw [read]
  exact ⟨by decide +kernel, by decide +kernel⟩

/-- An `else` does reach back: by itself it begins nothing. -/
example :
    let before := (scan "if (a) b;").tokens.dropLast
    let after := (scan "else c;").tokens
    (ofTokens (before ++ after)).errors = [] ∧ (ofTokens after).errors ≠ [] := by
  decide +kernel

end BlockScript.Grammar
