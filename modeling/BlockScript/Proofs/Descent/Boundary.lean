import BlockScript.Proofs.Descent.Errors
import BlockScript.Proofs.Descent.Termination

/-!
# Where recovery stops

## Main result

`recovery_stops`: behind an error the cursor goes on to the least place behind the token at which it
stands where a declaration may begin. A declaration that comes to nothing has listed one more error,
and the cursor has gone on to there from the token that this error is blamed on.

## Proof strategy

1. A place of the list that is parsed is a boundary if the tokens there say so (`StopsAt`). Up to
   the first mark these are the tokens of the text (`stopsAt_iff`), and recovery has been followed
   along those already (`synchronize_ends`).
2. An attempt at a declaration that fails has the cursor at the token to blame (`attempt_stuck`),
   and it has forgotten no error (`statementsKeep`). What is left is to report and to recover.
-/

namespace BlockScript.Descent

open Parse Grammar

/-- Whether a declaration may begin at a place of a list, behind an error: at a mark or at a keyword
that begins one, and also behind a semicolon. -/
def StopsAt (list : List Token) (place : Nat) : Prop :=
  ∃ token ∈ list[place]?, token.isEnd = true ∨ opensDeclaration token = true ∨
    ∃ before ∈ list[place - 1]?, before.kind = .symbol .semicolon

instance (list : List Token) (place : Nat) : Decidable (StopsAt list place) :=
  inferInstanceAs (Decidable (∃ token ∈ list[place]?, token.isEnd = true ∨
    opensDeclaration token = true ∨ ∃ before ∈ list[place - 1]?, before.kind = .symbol .semicolon))

/-- Whether a part of a descent has one end, with whatever fuel that is enough. -/
def Walk.EndsIn {α : Type} (walk : Nat → Walk α) (start : Descent) (result : α) (next : Descent) :
    Prop :=
  ∃ enough, ∀ fuel, enough ≤ fuel → walk fuel start = some (result, next)

/-- How a declaration is given up that an error has spoiled. The cursor was at the token to blame
when the error was raised. -/
structure Abandons (list : List Token) (start : Descent) (error : Error) (spoiled next : Descent) :
    Prop where
  reaches : start.position ≤ spoiled.position
  blames : list[spoiled.position]? = some error.token
  keeps : start.errors <:+ spoiled.errors
  records : next.errors = error :: spoiled.errors
  stops : StopsAt list next.position
  stays : error.token.isEnd = true → next.position = spoiled.position
  leaves : error.token.isEnd = false →
    IsLeast {place | spoiled.position < place ∧ StopsAt list place} next.position

section

variable {tokens list : List Token} {start next : Descent}

/-! ### Ends -/

/-- What a part of a descent ends in on one of the lists that are alike. -/
theorem Walk.Ends.endsIn {α : Type} {walk : List Token → Nat → Walk α}
    {post : α → Descent → Prop} (alike : Alike tokens list)
    (ends : Walk.Ends tokens walk start post) :
    Walk.Ends tokens walk start fun result next =>
      post result next ∧ Walk.EndsIn (walk list) start result next := by
  obtain ⟨result, next, holds, enough, found⟩ := ends
  have endsIn : Walk.EndsIn (walk list) start result next :=
    ⟨enough, fun fuel more => found fuel more list alike⟩
  exact ⟨result, next, ⟨holds, endsIn⟩, enough, found⟩

theorem Walk.EndsIn.keeps {α : Type} {walk : Nat → Walk α} {result : α}
    (endsIn : Walk.EndsIn walk start result next) (keeps : ∀ fuel, (walk fuel).Keeps) :
    start.errors <:+ next.errors := by
  obtain ⟨enough, found⟩ := endsIn
  exact keeps enough start result next (found enough le_rfl)

/-! ### Boundaries -/

theorem stopsAt_iff (alike : Alike tokens list) {place : Nat} (inside : place ≤ limit tokens) :
    StopsAt list place ↔ Boundary tokens place := by
  have here := getElem?_eq_front alike inside
  have before := getElem?_eq_front alike ((Nat.sub_le place 1).trans inside)
  have ends : (front tokens place).isEnd = true ↔ limit tokens ≤ place := by
    rw [isEnd_front, decide_eq_true_iff]
  simp only [StopsAt, here, before, Option.mem_some_iff, exists_eq_left', ends]
  exact or_congr_right or_comm

/-- The first boundary from behind a place on is the least one behind it. -/
theorem Resumes.isLeast (alike : Alike tokens list) {place : Nat} {errors : List Error}
    (resumes : Resumes tokens ⟨place + 1, errors⟩ next) :
    IsLeast {other | place < other ∧ StopsAt list other} next.position := by
  refine ⟨⟨resumes.reaches, (stopsAt_iff alike resumes.inside).mpr resumes.stops⟩, ?_⟩
  rintro other ⟨beyond, stops⟩
  by_contra noBound
  -- A boundary in front would be in the text still, where none has been skipped.
  have before : other < next.position := Nat.lt_of_not_le noBound
  have inside : other ≤ limit tokens := before.le.trans resumes.inside
  exact resumes.skips other beyond before ((stopsAt_iff alike inside).mp stops)

/-- At a mark there is nothing to leave. -/
theorem synchronize_atMark {mark : Token} (here : list[start.position]? = some mark)
    (ends : mark.isEnd = true) (fuel : Nat) :
    synchronize list (fuel + 1) start = some ((), start) := by
  -- The token in front of the mark is looked at, but nothing comes of it.
  obtain ⟨before, isBefore⟩ : ∃ before, list[start.position - 1]? = some before := by
    obtain ⟨inside, -⟩ := List.getElem?_eq_some_iff.mp here
    exact ⟨_, List.getElem?_eq_getElem (Nat.lt_of_le_of_lt (Nat.sub_le _ _) inside)⟩
  have looks : previous list start = some (before, start) := by
    rw [previous, isBefore]
    rfl
  have atEnd : isAtEnd list start = some (true, start) := by
    have found : peek list start = some (mark, start) := by
      rw [peek, here]
      rfl
    rw [isAtEnd, Walk.bind_eq _ found, ends]
    rfl
  have stays : advance list start = some (before, start) := by
    rw [advance, Walk.bind_eq _ atEnd]
    exact looks
  rw [synchronize, Walk.bind_eq _ stays, resume, Walk.bind_eq _ atEnd]
  rfl

/-- The cursor of the descent and the fold over the tokens stop at the same place. -/
theorem synchronize_stops (alike : Alike tokens list) (before : start.position < limit tokens) :
    ∃ place, IsLeast {other | start.position < other ∧ StopsAt list other} place ∧
      Walk.EndsIn (synchronize list) start () { start with position := place } ∧
      ∀ (state : State) (fault : Fault),
        outcome tokens (state.fail fault (front tokens start.position)) (start.position + 1) =
          outcome tokens
            { state.fail fault (front tokens start.position) with mode := .declaration } place := by
  obtain ⟨_, next, ⟨resumes, endsIn⟩, -⟩ := (synchronize_ends before.le).endsIn alike
  -- There is a token to leave, so the cursor moves at least once.
  have behind : Resumes tokens ⟨start.position + 1, start.errors⟩ next := by
    rwa [min_eq_left (Nat.succ_le_of_lt before)] at resumes
  obtain ⟨position, errors⟩ := next
  obtain rfl : errors = start.errors := behind.errors_eq
  exact ⟨position, behind.isLeast alike, endsIn, fun _ _ => outcome_fail_eq resumes⟩

/-! ### Declarations -/

/-- An attempt at a declaration that fails is stuck. -/
theorem attempt_stuck (inside : start.position ≤ limit tokens) :
    Parser.Ends tokens attempt start (fun _ _ => True) (Stuck tokens start) := by
  refine .of_succ ?_
  simp only [attempt]
  by_cases word : (front tokens start.position).kind = .keyword .var_
  · have before : start.position < limit tokens := lt_limit_of_kind tokens (by simp [word])
    refine .after_walk (accept_of_mem inside (by simp) (by simp [word])) ?_
    simp only [if_true]
    exact Parser.Ends.mono (variableDeclaration_ends (moved_inside before))
      (fun _ _ _ => trivial) fun _ _ fails => fails.stuck.behind (Nat.le_succ _)
  · refine .after_walk (accept_of_not_mem inside (by simp) (by simpa using word)) ?_
    simp only [Bool.false_eq_true, if_false]
    exact Parser.Ends.mono (statement_ends inside) (fun _ _ _ => trivial)
      fun _ _ fails => fails.stuck

/-- Recovery from where a declaration is stuck. -/
theorem Stuck.abandons {error : Error} {spoiled : Descent} (alike : Alike tokens list)
    (stuck : Stuck tokens start error spoiled) (keeps : start.errors <:+ spoiled.errors)
    (resumes : Resumes tokens
      ⟨min (spoiled.position + 1) (limit tokens), error :: spoiled.errors⟩ next) :
    Abandons list start error spoiled next where
  reaches := stuck.reaches
  blames := by rw [getElem?_eq_front alike stuck.inside, stuck.blames]
  keeps := keeps
  records := resumes.errors_eq
  stops := (stopsAt_iff alike resumes.inside).mpr resumes.stops
  stays isMark := by
    rw [stuck.blames, isEnd_front, decide_eq_true_iff] at isMark
    -- No place is left to go on to.
    have reaches : limit tokens ≤ next.position := by
      simpa [Nat.le_succ_of_le isMark] using resumes.reaches
    have atMark : next.position = limit tokens := Nat.le_antisymm resumes.inside reaches
    exact atMark.trans (Nat.le_antisymm isMark stuck.inside)
  leaves noMark := by
    rw [stuck.blames, isEnd_front, decide_eq_false_iff_not, Nat.not_le] at noMark
    rw [min_eq_left (Nat.succ_le_of_lt noMark)] at resumes
    exact resumes.isLeast alike

/-- A declaration that comes to nothing has been abandoned. -/
theorem declaration_abandons (alike : Alike tokens list) (inside : start.position ≤ limit tokens) :
    Walk.Ends tokens declaration start fun result next => result = none → ∃ error spoiled,
      Walk.EndsIn (fun fuel => (attempt list fuel).run) start (.error error) spoiled ∧
        Abandons list start error spoiled next := by
  refine .of_succ ?_
  simp only [declaration]
  refine .bind ((attempt_stuck inside).endsIn alike) ?_
  rintro result spoiled ⟨ends, endsIn⟩
  cases result with
  | ok statement => exact .of_pure fun spoils => absurd spoils (Option.some_ne_none statement)
  | error error =>
    -- The cursor stays at the token to blame until the error has been listed.
    have stuck : Stuck tokens start error spoiled := ends
    have keeps := endsIn.keeps fun fuel => (statementsKeep fuel).attempt
    simp only [recover]
    refine .after (fun _ _ => report_eq error spoiled) (.bind (synchronize_ends stuck.inside) ?_)
    intro _ next resumes
    exact .of_pure fun _ => ⟨error, spoiled, endsIn, stuck.abandons alike keeps resumes⟩

end

/-! ### Main theorem -/

/-- **Recovery stops at the first boundary.** In front of the first mark it goes on to the least
place behind the cursor that is a boundary, and the fold over the tokens begins a declaration at the
same place when it has failed at that token; at a mark it does not move. A declaration that comes to
nothing was spoiled by an error, which is listed in front of all others. The cursor then stands at a
boundary, the least one behind the token to blame, unless that token is the mark. Put together, these
parts come to what the tokens are parsed to. -/
theorem recovery_stops (tokens : List Token) :
    (∀ start : Descent, start.position < limit tokens → ∃ place,
      IsLeast {other | start.position < other ∧ StopsAt (marked tokens) other} place ∧
      Walk.EndsIn (synchronize (marked tokens)) start () { start with position := place } ∧
      ∀ (state : State) (fault : Fault),
        outcome tokens (state.fail fault (front tokens start.position)) (start.position + 1) =
          outcome tokens
            { state.fail fault (front tokens start.position) with mode := .declaration } place) ∧
    (∀ (start : Descent) (mark : Token), (marked tokens)[start.position]? = some mark →
      mark.isEnd = true → Walk.EndsIn (synchronize (marked tokens)) start () start) ∧
    (∀ start : Descent, start.position ≤ limit tokens → ∃ result next,
      Walk.EndsIn (declaration (marked tokens)) start result next ∧
      (result = none → ∃ error spoiled,
        Walk.EndsIn (fun fuel => (attempt (marked tokens) fuel).run) start (.error error) spoiled ∧
          Abandons (marked tokens) start error spoiled next)) ∧
    ∃ enough, ∀ fuel, enough ≤ fuel → parse tokens fuel = some (ofTokens tokens) := by
  have alike := alike_marked tokens
  refine ⟨fun start before => synchronize_stops alike before, ?_, ?_, parse_ends tokens⟩
  · intro start mark here ends
    refine ⟨1, fun fuel more => ?_⟩
    obtain ⟨less, rfl⟩ := Nat.exists_eq_add_of_le' more
    exact synchronize_atMark here ends less
  · intro start inside
    obtain ⟨result, next, ⟨abandons, endsIn⟩, -⟩ := (declaration_abandons alike inside).endsIn alike
    exact ⟨result, next, endsIn, abandons⟩

/-- A keyword that is to blame is left as well, although a declaration could begin with it. -/
theorem recovery_stops_keyword :
    let tokens := (scan "print var a; b").tokens
    1 < limit tokens ∧ StopsAt (marked tokens) 1 ∧
      Walk.EndsIn (synchronize (marked tokens)) ⟨1, []⟩ () ⟨4, []⟩ := by
  intro tokens
  have before : 1 < limit tokens := by decide +kernel
  obtain ⟨place, least, endsIn, -⟩ := (recovery_stops tokens).1 ⟨1, []⟩ before
  have isLeast : IsLeast {other | 1 < other ∧ StopsAt (marked tokens) other} 4 := by
    refine ⟨⟨by decide, by decide +kernel⟩, ?_⟩
    rintro other ⟨beyond, stops⟩
    by_contra noBound
    -- Neither the name nor the semicolon is a boundary.
    have between : other = 2 ∨ other = 3 := by omega
    rcases between with rfl | rfl
    · exact absurd stops (by decide +kernel)
    · exact absurd stops (by decide +kernel)
  obtain rfl := least.unique isLeast
  exact ⟨before, by decide +kernel, endsIn⟩

end BlockScript.Descent
