import BlockScript.Proofs.Grammar.Moves
import BlockScript.Proofs.Grammar.Viable

/-!
# The order of errors

## Main result

`pairwise_blamed`: the errors of a parse are in the order of the tokens that they are blamed on;
only an assignment that is rejected in the right side of another one comes before that.

## Proof strategy

1. An equals sign waits until its right side ends, and then it is accepted or rejected, the
   innermost first. So the errors so far and the signs that wait are in order at any time, as if
   all of these were going to be rejected (`InOrder`).
2. A token that ends an expression only takes signs out of this list. An equals sign stands in the
   right sides of all that wait, and those that have been rejected are over (`Over`). Any other
   error is blamed on the token itself, which comes behind all others.
3. A parse looks at kinds and not at lines, so all of this may be shown of numbered tokens.
-/

namespace BlockScript.Grammar

open Parse

/-! ### Right sides -/

/-- How many parentheses are open in the right side of an assignment after one more token, or
nothing if the right side ends with that. -/
def deepen (depth : Nat) (token : Token) : Option Nat :=
  match token.kind with
  | .symbol .leftParen => some (depth + 1)
  | .symbol .rightParen => if depth = 0 then none else some (depth - 1)
  | .symbol .semicolon => none
  | .keyword word => if word.startsDeclaration then none else some depth
  | _ => some depth

/-- How many parentheses are open at a place in the right side of the equals sign at another, or
nothing if the right side ends before. -/
def sideDepth? (tokens : List Token) (equals place : Nat) : Option Nat :=
  ((tokens.take place).drop (equals + 1)).foldlM deepen 0

/-- Whether two errors are about assignment targets, and the equals sign of the one stands in the
right side of the other. -/
def Nested (tokens : List Token) (inner outer : Error × Nat) : Prop :=
  inner.1.fault = .badTarget ∧ outer.1.fault = .badTarget ∧ outer.2 < inner.2 ∧
    (sideDepth? tokens outer.2 inner.2).isSome = true

/-- Whether one error with its place comes before another one: in the order of the text, but for
assignments in the right sides of assignments, which come from the inside. -/
def Precedes (tokens : List Token) (first second : Error × Nat) : Prop :=
  Nested tokens first second ∨ first.2 ≤ second.2 ∧ ¬Nested tokens second first

section

variable {token : Token} (depth : Nat)

theorem deepen_semicolon (ends : token.kind = .symbol .semicolon) : deepen depth token = none := by
  simp [deepen, ends]

theorem deepen_keyword {word : Keyword} (isWord : token.kind = .keyword word)
    (starts : word.startsDeclaration = true) : deepen depth token = none := by
  simp [deepen, isWord, starts]

theorem deepen_atom {operand : Expr} (isAtom : atom? token = some operand) :
    deepen depth token = some depth := by
  unfold atom? at isAtom
  split at isAtom <;> simp_all [deepen, Keyword.startsDeclaration]

theorem deepen_operator {precedence : Nat} (binds : precedence? token.kind = some precedence) :
    deepen depth token = some depth := by
  unfold precedence? at binds
  split at binds <;> simp_all [deepen, Keyword.startsDeclaration]

end

theorem sideDepth?_next (tokens : List Token) (place : Nat) :
    sideDepth? tokens place (place + 1) = some 0 := by
  rw [sideDepth?, List.drop_eq_nil_of_le (List.length_take_le _ _)]
  rfl

theorem sideDepth?_succ {tokens : List Token} {equals place : Nat} {token : Token}
    (later : equals < place) (found : tokens[place]? = some token) :
    sideDepth? tokens equals (place + 1) =
      (sideDepth? tokens equals place).bind (deepen · token) := by
  have inside := (List.getElem?_eq_some_iff.mp found).1
  have reaches : equals + 1 ≤ (tokens.take place).length := by
    rw [List.length_take]
    omega
  rw [sideDepth?, List.take_add_one, found, List.drop_append_of_le_length reaches,
    List.foldlM_append]
  change (sideDepth? tokens equals place >>= fun depth => [token].foldlM deepen depth) = _
  simp only [List.foldlM_cons, List.foldlM_nil, bind_pure]
  rfl

theorem sideDepth?_map {f : Token → Token} (relabels : Relabels f) (tokens : List Token)
    (equals place : Nat) :
    sideDepth? (tokens.map f) equals place = sideDepth? tokens equals place := by
  have same : (fun depth token => deepen depth (f token)) = deepen := by
    funext depth token
    simp only [deepen, relabels.kind]
  rw [sideDepth?, ← List.map_take, ← List.map_drop, List.foldlM_map, same, sideDepth?]

/-! ### Equals signs that wait -/

/-- Equals signs that wait for their right sides, the innermost first, each with the number of
parentheses that are open in its right side. -/
def signs : List Frame → List (Token × Nat)
  | [] => []
  | .unary _ :: rest => signs rest
  | .binary _ _ _ :: rest => signs rest
  | .assign _ equals :: rest => (equals, 0) :: signs rest
  | .group :: rest => (signs rest).map fun sign => (sign.1, sign.2 + 1)

theorem signs_reduce (precedence : Nat) (frames : List Frame) (operand : Expr) :
    signs (reduce precedence frames operand).1 = signs frames := by
  fun_induction reduce precedence frames operand with
  | case1 _ _ _ ih => exact ih
  | case2 _ _ _ _ _ _ ih => exact ih
  | case3 | case4 => rfl

/-- The error that an equals sign will be if it has no variable on its left. -/
def rejection (sign : Token × Nat) : Error :=
  ⟨.badTarget, sign.1⟩

/-- An error about a numbered token, and its place. -/
def placed (error : Error) : Error × Nat :=
  (error, error.token.line)

/-- Whether a numbered token stands in front of a place. -/
def Stands (tokens : List Token) (place : Nat) (token : Token) : Prop :=
  token.line < place ∧ tokens[token.line]? = some token

/-- What holds of the errors and of the equals signs that wait in front of a place: they are in
order, even if all of these signs are going to be rejected. -/
structure InOrder (tokens : List Token) (place : Nat) (errors : List Error)
    (frames : List Frame) : Prop where
  listed : ((errors.reverse ++ (signs frames).map rejection).map placed).Pairwise (Precedes tokens)
  past : ∀ error ∈ errors, Stands tokens place error.token
  waiting : ∀ sign ∈ signs frames, Stands tokens place sign.1 ∧
    sideDepth? tokens sign.1.line place = some sign.2

/-- Whether the right sides of the equals signs that have been rejected end before a place. -/
def Over (tokens : List Token) (place : Nat) (errors : List Error) : Prop :=
  ∀ error ∈ errors, error.fault = .badTarget → sideDepth? tokens error.token.line place = none

theorem ne_badTarget {fault : Fault} (fatal : fault.isFatal = true) : fault ≠ .badTarget := by
  rintro rfl
  cases fatal

theorem Stands.succ {tokens : List Token} {place : Nat} {token : Token}
    (stands : Stands tokens place token) : Stands tokens (place + 1) token :=
  ⟨Nat.lt_succ_of_lt stands.1, stands.2⟩

namespace InOrder

variable {tokens : List Token} {place : Nat} {errors : List Error} {frames left : List Frame}

theorem of_signs (inOrder : InOrder tokens place errors frames) (same : signs left = signs frames) :
    InOrder tokens place errors left := by
  obtain ⟨listed, past, waiting⟩ := inOrder
  rw [← same] at listed waiting
  exact ⟨listed, past, waiting⟩

theorem tail {target : Expr} {equals : Token}
    (inOrder : InOrder tokens place errors (.assign target equals :: frames)) :
    InOrder tokens place errors frames where
  listed := by
    refine inOrder.listed.sublist (List.Sublist.map _ (List.Sublist.append_left ?_ _))
    exact List.sublist_cons_self _ _
  past := inOrder.past
  waiting sign member := inOrder.waiting sign (List.mem_cons_of_mem _ member)

/-- An equals sign is rejected. -/
theorem reject {target : Expr} {equals : Token}
    (inOrder : InOrder tokens place errors (.assign target equals :: frames)) :
    InOrder tokens place (⟨.badTarget, equals⟩ :: errors) frames where
  listed := by simpa [signs, rejection] using inOrder.listed
  past := by
    rw [List.forall_mem_cons]
    exact ⟨(inOrder.waiting (equals, 0) List.mem_cons_self).1, inOrder.past⟩
  waiting := inOrder.tail.waiting

theorem drop (inOrder : InOrder tokens place errors frames) : InOrder tokens place errors [] where
  listed := by
    refine inOrder.listed.sublist (List.Sublist.map _ (List.Sublist.append_left ?_ _))
    exact List.nil_sublist _
  past := inOrder.past
  waiting := nofun

/-- When an expression ends, the equals signs that are rejected then come behind the errors so
far. Their right sides end at the place, unless it opens a parenthesis. -/
theorem close (inOrder : InOrder tokens place errors frames) (operand : Expr) :
    let closing := Parse.close errors frames operand
    InOrder tokens place closing.badTargets (closing.outside.elim [] (.group :: ·)) ∧
    ∀ error ∈ closing.badTargets, error ∈ errors ∨
      sideDepth? tokens error.token.line place = some 0 := by
  fun_induction Parse.close errors frames operand with
  | case1 _ _ _ _ ih | case2 _ _ _ _ _ _ ih => exact ih (inOrder.of_signs rfl)
  | case3 _ _ _ _ _ ih => exact ih inOrder.tail
  | case4 errors target equals rest operand _ ih =>
    -- The sign was the innermost one that waited, so its error is the next to be listed.
    obtain ⟨ordered, ends⟩ := ih inOrder.reject
    refine ⟨ordered, fun error member => ?_⟩
    rcases ends error member with earlier | atPlace
    · rcases List.mem_cons.mp earlier with rfl | earlier
      · exact .inr (inOrder.waiting (equals, 0) List.mem_cons_self).2
      · exact .inl earlier
    · exact .inr atPlace
  | case5 | case6 => exact ⟨inOrder, fun error member => .inl member⟩

/-- Nothing waits any more. -/
theorem idle (inOrder : InOrder tokens place errors frames) (none : signs left = []) :
    InOrder tokens (place + 1) errors left where
  listed := by
    rw [none]
    exact inOrder.drop.listed
  past error member := (inOrder.past error member).succ
  waiting := by
    rw [none]
    exact nofun

section

variable {token : Token} (found : tokens[place]? = some token)
include found

theorem pass (inOrder : InOrder tokens place errors frames) (same : signs left = signs frames)
    (neutral : ∀ depth, deepen depth token = some depth) :
    InOrder tokens (place + 1) errors left where
  listed := (inOrder.of_signs same).listed
  past error member := (inOrder.past error member).succ
  waiting sign member := by
    obtain ⟨stands, depth⟩ := (inOrder.of_signs same).waiting sign member
    refine ⟨stands.succ, ?_⟩
    rw [sideDepth?_succ stands.1 found, depth, Option.bind_some, neutral]

theorem enterGroup (inOrder : InOrder tokens place errors frames)
    (opens : token.kind = .symbol .leftParen) :
    InOrder tokens (place + 1) errors (.group :: frames) where
  listed := by
    have same : (signs (.group :: frames)).map rejection = (signs frames).map rejection := by
      simp [signs, rejection]
    rw [same]
    exact inOrder.listed
  past error member := (inOrder.past error member).succ
  waiting sign member := by
    obtain ⟨outside, outer, rfl⟩ := List.mem_map.mp member
    obtain ⟨stands, depth⟩ := inOrder.waiting outside outer
    refine ⟨stands.succ, ?_⟩
    rw [sideDepth?_succ stands.1 found, depth, Option.bind_some, deepen, opens]

theorem leaveGroup (inOrder : InOrder tokens place errors (.group :: frames))
    (closes : token.kind = .symbol .rightParen) : InOrder tokens (place + 1) errors frames where
  listed := by
    have same : (signs (.group :: frames)).map rejection = (signs frames).map rejection := by
      simp [signs, rejection]
    rw [← same]
    exact inOrder.listed
  past error member := (inOrder.past error member).succ
  waiting sign member := by
    obtain ⟨stands, depth⟩ := inOrder.waiting (sign.1, sign.2 + 1) (List.mem_map_of_mem member)
    refine ⟨stands.succ, ?_⟩
    simp [sideDepth?_succ stands.1 found, depth, deepen, closes]

variable (here : token.line = place)
include here

theorem equals (inOrder : InOrder tokens place errors frames) (finished : Over tokens place errors)
    (same : signs left = signs frames) (target : Expr) (isSign : token.kind = .symbol .assign) :
    InOrder tokens (place + 1) errors (.assign target token :: left) := by
  have neutral (depth : Nat) : deepen depth token = some depth := by simp [deepen, isSign]
  have passed := inOrder.pass found same neutral
  have before := inOrder.of_signs same
  constructor
  · have listed := passed.listed
    simp only [List.map_append, List.pairwise_append, List.forall_mem_map, signs, List.map_cons,
      List.pairwise_cons, List.forall_mem_cons] at listed ⊢
    obtain ⟨ofErrors, ofSigns, across⟩ := listed
    refine ⟨ofErrors, ⟨fun sign member => ?_, ofSigns⟩, fun error member =>
      ⟨?_, across error member⟩⟩
    · -- The sign stands in the right side of each that waits.
      obtain ⟨stands, depth⟩ := before.waiting sign member
      refine .inl ⟨rfl, rfl, ?_, ?_⟩
      · simpa [placed, rejection, here] using stands.1
      · simp [placed, rejection, here, depth]
    · -- The right sides of those that have been rejected are over.
      rw [List.mem_reverse] at member
      refine .inr ⟨?_, ?_⟩
      · have earlier := (inOrder.past error member).1
        simp only [placed, rejection, here]
        omega
      · rintro ⟨-, bad, -, inside⟩
        simp only [placed, rejection, here] at bad inside
        simp [finished error member bad] at inside
  · exact passed.past
  · rw [signs, List.forall_mem_cons]
    refine ⟨⟨⟨by simp [here], by simpa [here] using found⟩, ?_⟩, passed.waiting⟩
    simp only [here]
    exact sideDepth?_next tokens place

/-- An error that is blamed on the token comes behind all others. -/
theorem fail (inOrder : InOrder tokens place errors frames) {fault : Fault}
    (fatal : fault.isFatal = true) : InOrder tokens (place + 1) (⟨fault, token⟩ :: errors) [] where
  listed := by
    have listed := inOrder.drop.listed
    simp only [signs, List.map_nil, List.append_nil, List.reverse_cons, List.map_append,
      List.map_cons, List.pairwise_append, List.forall_mem_map] at listed ⊢
    refine ⟨listed, List.pairwise_singleton _ _, fun error member => ?_⟩
    rw [List.forall_mem_singleton]
    have earlier := (inOrder.past error (List.mem_reverse.mp member)).1
    refine .inr ⟨?_, fun nested => ne_badTarget fatal nested.1⟩
    simp only [placed, here]
    omega
  past := by
    rw [List.forall_mem_cons]
    refine ⟨⟨by simp [here], by simpa [here] using found⟩, fun error member => ?_⟩
    exact (inOrder.past error member).succ
  waiting := nofun

end
end InOrder

/-! ### Reading a token -/

/-- The operators and parentheses that wait for an operand. -/
def frames : Mode → List Frame
  | .operand frames _ => frames
  | .operator frames _ _ => frames
  | _ => []

/-- What holds of a parse that has come to a place. While it recovers, right sides that have been
given up need not be over. -/
structure Orderly (tokens : List Token) (place : Nat) (state : State) : Prop where
  inOrder : InOrder tokens place state.errors (frames state.mode)
  finished : state.mode = .recovering ∨ Over tokens place state.errors

section

variable {tokens : List Token} {place : Nat} {token : Token}
  (found : tokens[place]? = some token)
include found

theorem Over.succ {errors : List Error} (finished : Over tokens place errors)
    (past : ∀ error ∈ errors, Stands tokens place error.token) :
    Over tokens (place + 1) errors := by
  intro error member bad
  rw [sideDepth?_succ (past error member).1 found, finished error member bad]
  rfl

/-- A semicolon, or a keyword that begins a declaration, ends all right sides. -/
theorem over_of_ends {errors : List Error} (ends : ∀ depth, deepen depth token = none)
    (past : ∀ error ∈ errors, Stands tokens place error.token) :
    Over tokens (place + 1) errors := by
  intro error member _
  rw [sideDepth?_succ (past error member).1 found]
  simp [ends]

/-- The token that ends an expression ends the right sides that no parenthesis is open in. -/
theorem over_of_closes {errors more : List Error} (finished : Over tokens place errors)
    (past : ∀ error ∈ more, Stands tokens place error.token)
    (ends : ∀ error ∈ more, error ∈ errors ∨ sideDepth? tokens error.token.line place = some 0)
    (closes : deepen 0 token = none) : Over tokens (place + 1) more := by
  intro error member bad
  rw [sideDepth?_succ (past error member).1 found]
  rcases ends error member with earlier | atPlace
  · rw [finished error earlier bad]
    rfl
  · rw [atPlace]
    exact closes

variable (here : token.line = place)
include here

theorem orderly_fail {state : State} {left : List Frame}
    (inOrder : InOrder tokens place state.errors left) {fault : Fault}
    (fatal : fault.isFatal = true) : Orderly tokens (place + 1) (state.fail fault token) := by
  have failed := inOrder.fail found here fatal
  constructor
  · refine failed.of_signs ?_
    simp only [State.fail]
    split <;> rfl
  · simp only [State.fail, State.record]
    split
    next ends =>
      right
      intro error member bad
      rcases List.mem_cons.mp member with rfl | earlier
      · exact absurd bad (ne_badTarget fatal)
      · have finished := over_of_ends found (deepen_semicolon · ends) inOrder.past
        exact finished error earlier bad
    next => exact .inl rfl

section

variable {state next : State}

theorem orderly_operand {left : List Frame} {purpose : Purpose}
    (reads : ReadsOperand state token left purpose next)
    (inOrder : InOrder tokens place state.errors left)
    (finished : Over tokens (place + 1) state.errors) : Orderly tokens (place + 1) next := by
  cases reads with
  | unary sign =>
    have neutral (depth : Nat) : deepen depth token = some depth := by
      rcases sign with bang | minus <;> simp [deepen, *]
    exact ⟨inOrder.pass found rfl neutral, .inr finished⟩
  | group opens => exact ⟨inOrder.enterGroup found opens, .inr finished⟩
  | atom known => exact ⟨inOrder.pass found rfl (deepen_atom · known), .inr finished⟩
  | misfit => exact orderly_fail found here inOrder rfl

theorem orderly_end (reads : ReadsEnd state token next)
    (inOrder : InOrder tokens place state.errors [])
    (fits : deepen 0 token = none → Over tokens (place + 1) state.errors) :
    Orderly tokens (place + 1) next := by
  cases reads with
  | statement _ ends => exact ⟨inOrder.idle rfl, .inr (fits (deepen_semicolon 0 ends))⟩
  | condition _ closes => exact ⟨inOrder.idle rfl, .inr (fits (by simp [deepen, closes]))⟩
  | misfit _ fatal => exact orderly_fail found here inOrder fatal

theorem orderly_operator {left : List Frame} {purpose : Purpose} {operand : Expr}
    (reads : ReadsOperator state token left purpose operand next)
    (inOrder : InOrder tokens place state.errors left)
    (finished : Over tokens place state.errors) : Orderly tokens (place + 1) next := by
  have overNext := finished.succ found inOrder.past
  obtain ⟨ordered, ends⟩ := inOrder.close operand
  -- The right sides that the token ends are those of the signs that are rejected now.
  have overClosed (closes : deepen 0 token = none) :=
    over_of_closes found finished ordered.past ends closes
  cases reads with
  | binary binds =>
    exact ⟨inOrder.pass found (signs_reduce _ _ _) (deepen_operator · binds), .inr overNext⟩
  | assign sets =>
    exact ⟨inOrder.equals found here finished (signs_reduce _ _ _) _ sets, .inr overNext⟩
  | groupEnd inside closes =>
    rw [inside] at ordered
    exact ⟨ordered.leaveGroup found closes, .inr (overClosed (by simp [deepen, closes]))⟩
  | unclosed inside => exact orderly_fail found here ordered rfl
  | complete outermost reads =>
    rw [outermost] at ordered
    exact orderly_end found here reads ordered overClosed

theorem orderly_statement (reads : ReadsStatement state token next)
    (inOrder : InOrder tokens place state.errors [])
    (finished : Over tokens (place + 1) state.errors) : Orderly tokens (place + 1) next := by
  cases reads with
  | branches | prints | block => exact ⟨inOrder.idle rfl, .inr finished⟩
  | expression reads => exact orderly_operand found here reads inOrder finished

theorem orderly_declaration (reads : ReadsDeclaration state token next)
    (inOrder : InOrder tokens place state.errors [])
    (finished : Over tokens (place + 1) state.errors) : Orderly tokens (place + 1) next := by
  cases reads with
  | declares | blockEnd => exact ⟨inOrder.idle rfl, .inr finished⟩
  | statement reads => exact orderly_statement found here reads inOrder finished

theorem orderly_recovering (recovers : state.mode = .recovering)
    (reads : ReadsRecovering state token next) (inOrder : InOrder tokens place state.errors []) :
    Orderly tokens (place + 1) next := by
  cases reads with
  | semicolon ends =>
    exact ⟨inOrder.idle rfl, .inr (over_of_ends found (deepen_semicolon · ends) inOrder.past)⟩
  | resumes isWord starts reads =>
    have finished := over_of_ends found (deepen_keyword · isWord starts) inOrder.past
    exact orderly_declaration found here reads inOrder finished
  | skips =>
    refine ⟨?_, .inl recovers⟩
    rw [recovers]
    exact inOrder.idle rfl

/-- The order is kept, whatever a token does. -/
theorem Orderly.reads (orderly : Orderly tokens place state) (reads : Reads state token next) :
    Orderly tokens (place + 1) next := by
  obtain ⟨inOrder, finished⟩ := orderly
  have idle := inOrder.drop
  -- While a spoiled declaration is skipped, its right sides need not be over.
  have overHere (running : state.mode ≠ .recovering) := finished.resolve_left running
  have overNext (running : state.mode ≠ .recovering) := (overHere running).succ found inOrder.past
  cases reads with
  | declaration mode reads =>
    exact orderly_declaration found here reads idle (overNext (by simp [mode]))
  | statement mode reads =>
    exact orderly_statement found here reads idle (overNext (by simp [mode]))
  | otherwise mode taken =>
    constructor
    · rw [taken, State.settle_errors]
      exact idle.idle rfl
    · rw [State.settle_errors]
      exact .inr (overNext (by simp [mode]))
  | after mode reads =>
    refine orderly_declaration found here reads ?_ ?_
    · rwa [State.settle_errors]
    · rw [State.settle_errors]
      exact overNext (by simp [mode])
  | variableName mode | initializer mode | variableEnd mode | conditionParen mode =>
    exact ⟨idle.idle rfl, .inr (overNext (by simp [mode]))⟩
  | misfit _ _ fatal => exact orderly_fail found here idle fatal
  | operand mode reads =>
    rw [mode] at inOrder
    exact orderly_operand found here reads inOrder (overNext (by simp [mode]))
  | operator mode reads =>
    rw [mode] at inOrder
    exact orderly_operator found here reads inOrder (overHere (by simp [mode]))
  | recovering mode reads => exact orderly_recovering found here mode reads idle

end

theorem Orderly.step {state : State} (orderly : Orderly tokens place state) :
    Orderly tokens (place + 1) (state.step token) :=
  orderly.reads found here (state.reads_step token)

/-- The end of the text is read like a token if it comes too early. -/
theorem Orderly.atEnd {state : State} (orderly : Orderly tokens place state) :
    InOrder tokens (place + 1) (state.atEnd token).errors [] := by
  unfold State.atEnd
  split
  · exact orderly.inOrder.idle rfl
  · exact orderly.inOrder.idle rfl
  next statement _ =>
    rw [State.settle_errors]
    exact orderly.inOrder.idle rfl
  · exact (orderly.step found here).inOrder.drop

/-- The blocks that are not closed are blamed on the end, behind all other errors. -/
theorem Orderly.finish {state : State} (orderly : Orderly tokens place state) :
    ((state.finish token).errors.map placed).Pairwise (Precedes tokens) ∧
    ∀ error ∈ (state.finish token).errors, tokens[error.token.line]? = some error.token := by
  have ended := orderly.atEnd found here
  have listed := ended.listed
  simp only [signs, List.map_nil, List.append_nil] at listed
  have unclosed : ∀ contexts : List Context, ∀ error ∈ contexts.map
      (fun _ => (⟨.missing .braceAfterBlock, token⟩ : Error)),
      error = ⟨.missing .braceAfterBlock, token⟩ := by
    intro contexts error member
    obtain ⟨_, _, rfl⟩ := List.mem_map.mp member
    rfl
  -- No error about a brace is nested in anything.
  have comesLast (error : Error) (earlier : error.token.line ≤ place) :
      Precedes tokens (placed error) (placed ⟨.missing .braceAfterBlock, token⟩) := by
    refine .inr ⟨by simpa [placed, here] using earlier, ?_⟩
    rintro ⟨bad, -⟩
    cases bad
  unfold State.finish
  simp only [List.map_append, List.pairwise_append, List.forall_mem_append, List.forall_mem_map]
  refine ⟨⟨listed, ?_, fun error member other _ => ?_⟩, fun error member => ?_, ?_⟩
  · rw [List.pairwise_map, List.pairwise_map]
    exact List.pairwise_of_forall fun _ _ => comesLast _ (by simp [here])
  · have earlier := (ended.past error (List.mem_reverse.mp member)).1
    exact comesLast error (by omega)
  · exact (ended.past error (List.mem_reverse.mp member)).2
  · intro other _
    rw [here]
    exact found

end

/-! ### Reading numbered tokens -/

theorem orderly_initial (tokens : List Token) : Orderly tokens 0 State.initial where
  inOrder := ⟨List.Pairwise.nil, by simp [State.initial], by simp [State.initial, frames, signs]⟩
  finished := .inr (by simp [Over, State.initial])

section

variable {tokens : List Token}
  (numbers : ∀ (place : Nat) (token : Token), tokens[place]? = some token → token.line = place)
include numbers

theorem orderly_reading {place : Nat} (inside : place ≤ tokens.length) :
    Orderly tokens place (reading (tokens.take place)) := by
  induction place with
  | zero => exact orderly_initial tokens
  | succ place ih =>
    have found : tokens[place]? = some tokens[place] := List.getElem?_eq_getElem inside
    have before := ih (Nat.le_of_succ_le inside)
    rw [List.take_add_one, found, reading_append]
    exact before.step found (numbers place _ found)

end

theorem getElem?_numbered (tokens : List Token) (place : Nat) :
    (numbered tokens)[place]? = tokens[place]?.map fun token => { token with line := place } := by
  simp [numbered]

theorem listed_numbered (tokens : List Token) :
    let places := numbered (looksAt tokens)
    ((ofTokens places).errors.map placed).Pairwise (Precedes places) ∧
    ∀ error ∈ (ofTokens places).errors, places[error.token.line]? = some error.token := by
  intro places
  have numbers : ∀ (place : Nat) (token : Token), places[place]? = some token →
      token.line = place := by
    intro place token found
    rw [getElem?_numbered, Option.map_eq_some_iff] at found
    obtain ⟨_, _, rfl⟩ := found
    rfl
  let mark : Token := { endMark tokens with line := (text tokens).length }
  obtain ⟨more, parts⟩ : ∃ more, places = numbered (text tokens) ++ mark :: more :=
    numbered_append_cons (text tokens) (endMark tokens) []
  have plain := isEnd_of_mem_numbered (plain_text tokens)
  have isEnd : mark.isEnd = true := isEnd_endMark tokens
  obtain ⟨sameText, sameMark⟩ := text_mark plain isEnd more
  have size : (numbered (text tokens)).length = (text tokens).length := by simp [numbered]
  have found : places[(text tokens).length]? = some mark := by
    rw [parts, ← size, List.getElem?_append_right (Nat.le_refl _)]
    simp
  have read := orderly_reading numbers (Nat.le_of_lt (List.getElem?_eq_some_iff.mp found).1)
  have upTo : places.take (text tokens).length = numbered (text tokens) := by
    rw [parts, ← size, List.take_left]
  have whole : ofTokens places = (reading (numbered (text tokens))).finish mark := by
    rw [parts, ofTokens, ← text, sameText, sameMark]
    rfl
  rw [upTo] at read
  rw [whole]
  exact read.finish found rfl

/-! ### Places -/

/-- The errors of a parse, each with the place of the token that it is blamed on. No parse looks
at lines, so the tokens are numbered by them. -/
def blamed (tokens : List Token) : List (Error × Nat) :=
  (ofTokens tokens).errors.zip
    ((ofTokens (numbered (looksAt tokens))).errors.map (·.token.line))

/-- The numbered token on the line where it was. -/
def restored (tokens : List Token) (token : Token) : Token :=
  { token with line := (tokens[token.line]?.map Token.line).getD token.line }

theorem relabels_restored (tokens : List Token) : Relabels (restored tokens) :=
  ⟨fun _ => rfl, fun _ => rfl⟩

theorem map_restored_numbered (tokens : List Token) :
    (numbered tokens).map (restored tokens) = tokens := by
  apply List.ext_getElem?
  intro place
  rw [List.getElem?_map, getElem?_numbered]
  cases found : tokens[place]? with
  | none => rfl
  | some token => simp [restored, found]

theorem errors_eq (tokens : List Token) :
    (ofTokens tokens).errors = (ofTokens (numbered (looksAt tokens))).errors.map
      (Error.map (restored (looksAt tokens))) := by
  have ended : ∃ token ∈ numbered (looksAt tokens), token.isEnd = true := by
    obtain ⟨more, parts⟩ := numbered_append_cons (text tokens) (endMark tokens) []
    rw [looksAt, parts]
    exact ⟨_, List.mem_append_right _ List.mem_cons_self, isEnd_endMark tokens⟩
  have restoredParse := ofTokens_map (relabels_restored (looksAt tokens)) ended
  rw [map_restored_numbered, ofTokens_looksAt] at restoredParse
  rw [restoredParse]
  rfl

theorem blamed_eq (tokens : List Token) :
    blamed tokens = (ofTokens (numbered (looksAt tokens))).errors.map fun error =>
      (error.map (restored (looksAt tokens)), error.token.line) := by
  rw [blamed, errors_eq tokens, List.zip_map']

/-- **The order of errors.** Each error has a place, where the token stands that it is blamed on,
and the errors are in the order of their places; only an assignment that is rejected in the right
side of another one comes before that. -/
theorem pairwise_blamed (tokens : List Token) :
    (blamed tokens).map Prod.fst = (ofTokens tokens).errors ∧
    (∀ error ∈ blamed tokens, (looksAt tokens)[error.2]? = some error.1.token) ∧
    (blamed tokens).Pairwise (Precedes (looksAt tokens)) := by
  obtain ⟨listed, stands⟩ := listed_numbered tokens
  have depths := sideDepth?_map (relabels_restored (looksAt tokens)) (numbered (looksAt tokens))
  rw [map_restored_numbered] at depths
  rw [blamed_eq]
  refine ⟨?_, ?_, ?_⟩
  · rw [errors_eq tokens, List.map_map]
    rfl
  · rw [List.forall_mem_map]
    intro error member
    have found := stands error member
    rw [getElem?_numbered, Option.map_eq_some_iff] at found
    obtain ⟨token, found, same⟩ := found
    rw [found, Error.map, ← same]
    simp [restored, found]
  · rw [List.pairwise_map] at listed ⊢
    refine listed.imp fun {first second} precedes => ?_
    unfold Precedes Nested at precedes ⊢
    simpa [depths, placed, Error.map] using precedes

end BlockScript.Grammar
