import BlockScript.Proofs.Descent.Statement

/-!
# The descent always ends, and not behind the first mark

## Main result

`parse_terminates`: from every place of a text each part of the descent ends, with the cursor at the
first mark or in front of it, and a declaration moves the cursor. So the parse of every list ends,
and what is behind the first mark makes no difference.

## Proof strategy

1. The parts have been followed one by one on all lists at once that are alike up to the first mark
   (`expression_ends` to `program_ends`). Here it is enough to know where the cursor is.
2. The fold that the program agrees with begins in front of the first token, so the descent comes to
   what the fold finishes with (`parse_ends`).
-/

namespace BlockScript.Descent

open Parse Grammar

/-- Whether a part of a descent ends some tokens farther on at least, and not behind the first mark.
It does the same on the list that ends with the first mark, where nothing behind can be looked
at. -/
def EndsInside {α : Type} (tokens : List Token) (count : Nat) (walk : List Token → Nat → Walk α)
    (start : Descent) : Prop :=
  Walk.Ends tokens walk start fun _ next =>
    start.position + count ≤ next.position ∧ next.position ≤ limit tokens

section

variable {tokens : List Token} {start : Descent}

/-- Where a parser may stop with a value, and where it is stuck, is all inside. -/
theorem endsInside_of_ends {α : Type} {parser : List Token → Nat → Parser α}
    {ok : α → Descent → Prop} {fails : Error → Descent → Prop}
    (ends : Parser.Ends tokens parser start ok fails)
    (reads : ∀ value next, ok value next →
      start.position ≤ next.position ∧ next.position ≤ limit tokens)
    (stuck : ∀ error next, fails error next → Stuck tokens start error next) :
    EndsInside tokens 0 (fun list fuel => (parser list fuel).run) start := by
  refine Walk.Ends.mono ends fun result next holds => ?_
  cases result with
  | ok value => exact reads value next holds
  | error error => exact ⟨(stuck error next holds).reaches, (stuck error next holds).inside⟩

theorem expression_endsInside (inside : start.position ≤ limit tokens) :
    EndsInside tokens 0 (fun list fuel => (expression list fuel).run) start :=
  endsInside_of_ends (expression_ends inside)
    (fun _ _ reads => ⟨reads.moves.le, reads.inside⟩) fun _ _ fails => fails.stuck

theorem statement_endsInside (inside : start.position ≤ limit tokens) :
    EndsInside tokens 0 (fun list fuel => (statement list fuel).run) start :=
  endsInside_of_ends (statement_ends inside)
    (fun _ _ reads => ⟨reads.moves.le, reads.inside⟩) fun _ _ fails => fails.stuck

theorem block_endsInside (inside : start.position ≤ limit tokens) (body : List Stmt) :
    EndsInside tokens 0 (fun list fuel => (block list fuel body).run) start :=
  endsInside_of_ends (block_ends inside body)
    (fun _ _ reads => ⟨reads.moves.le, reads.inside⟩) fun _ _ fails => fails.stuck

theorem synchronize_endsInside (inside : start.position ≤ limit tokens) :
    EndsInside tokens 0 synchronize start := by
  refine (synchronize_ends inside).mono fun _ next resumes => ⟨?_, resumes.inside⟩
  exact (le_min (Nat.le_succ _) inside).trans resumes.reaches

theorem declaration_endsInside (before : start.position < limit tokens) :
    EndsInside tokens 1 declaration start :=
  (declaration_ends before).mono fun _ _ declares => ⟨declares.moves, declares.inside⟩

theorem program_endsInside (inside : start.position ≤ limit tokens) (done : List Stmt) :
    EndsInside tokens 0 (fun list fuel => program list fuel done) start :=
  (program_ends inside done).mono fun _ _ ⟨atMark, _⟩ => ⟨atMark ▸ inside, atMark.le⟩

end

/-! ### The whole list -/

/-- The descent comes to the same as the fold. -/
theorem parse_ends (tokens : List Token) :
    ∃ enough, ∀ fuel, enough ≤ fuel → parse tokens fuel = some (ofTokens tokens) := by
  obtain ⟨result, last, ⟨_, same⟩, enough, found⟩ :=
    @program_ends tokens ⟨0, []⟩ (Nat.zero_le _) []
  refine ⟨enough, fun fuel more => ?_⟩
  have ends : program (marked tokens) fuel [] ⟨0, []⟩ = some (result, last) :=
    found fuel more (marked tokens) (alike_marked tokens)
  rw [parse, ends, Option.map_some]
  exact congrArg some same.symm

theorem text_append_mark (before : List Token) {mark : Token} (ends : mark.isEnd = true)
    (after : List Token) : text (before ++ mark :: after) = text (before ++ [mark]) := by
  simp [text, List.takeWhile_append, ends]

theorem endMark_append_mark (before : List Token) {mark : Token} (ends : mark.isEnd = true)
    (after : List Token) : endMark (before ++ mark :: after) = endMark (before ++ [mark]) := by
  simp only [endMark, List.find?_append, List.find?_cons_of_pos ends]
  cases before.find? Token.isEnd <;> rfl

/-- What is behind a mark makes no difference. -/
theorem ofTokens_append_mark (before : List Token) {mark : Token} (ends : mark.isEnd = true)
    (after : List Token) : ofTokens (before ++ mark :: after) = ofTokens (before ++ [mark]) := by
  rw [ofTokens, ofTokens, ← text, ← text, text_append_mark before ends after,
    endMark_append_mark before ends after]

/-! ### Main theorem -/

/-- **The descent always ends, and not behind the first mark.** The list that is parsed holds the
text, the first mark and whatever is behind, and it is like the list that the mark ends. With enough
fuel every part of the descent that begins at the mark or in front of it ends there as well, and in
the same way on all lists that are alike; and a declaration that begins in front of the mark moves
the cursor. So the whole list is parsed, and the result is the same for all lists with the same
first mark and the same tokens in front of it. -/
theorem parse_terminates (tokens : List Token) :
    (Alike tokens (marked tokens) ∧ Alike tokens (looksAt tokens) ∧
      (endMark tokens).isEnd = true ∧ ∀ token ∈ text tokens, token.isEnd = false) ∧
    (∀ start : Descent, start.position ≤ limit tokens →
      EndsInside tokens 0 (fun list fuel => (expression list fuel).run) start ∧
      EndsInside tokens 0 (fun list fuel => (statement list fuel).run) start ∧
      (∀ body, EndsInside tokens 0 (fun list fuel => (block list fuel body).run) start) ∧
      EndsInside tokens 0 synchronize start ∧
      ∀ done, EndsInside tokens 0 (fun list fuel => program list fuel done) start) ∧
    (∀ start : Descent, start.position < limit tokens → EndsInside tokens 1 declaration start) ∧
    (∃ enough, ∀ fuel, enough ≤ fuel → parse tokens fuel = some (ofTokens tokens)) ∧
    ∀ before mark after other, mark.isEnd = true →
      ofTokens (before ++ mark :: after) = ofTokens (before ++ mark :: other) := by
  refine ⟨⟨alike_marked tokens, alike_looksAt tokens, isEnd_endMark tokens, plain_text tokens⟩, ?_,
    ?_, parse_ends tokens, ?_⟩
  · intro start inside
    exact ⟨expression_endsInside inside, statement_endsInside inside, block_endsInside inside,
      synchronize_endsInside inside, program_endsInside inside⟩
  · exact fun start before => declaration_endsInside before
  · intro before mark after other ends
    rw [ofTokens_append_mark before ends after, ofTokens_append_mark before ends other]

end BlockScript.Descent
