import BlockScript.Proofs.Grammar.Order
import Mathlib.Data.List.Nodup
import Mathlib.Data.List.Perm.Subperm

/-!
# No token is blamed twice

## Main result

`blamed_once`: a parse blames no more than one error on each token of the text, and on the end
of the text no more than one for each opening brace and one besides.

## Proof strategy

1. A token is spent when an error is blamed on it. Until then, only an equals sign can be kept for
   that: it waits in front of its right side. A token that is read is spent or kept at most once,
   and is read once (`Charged.step`). So what has been spent or is kept are, in some order, some of
   the tokens that have been read.
2. Only an opening brace opens a block, and at the end each open block is one more error.
3. A parse does not look at lines, so the tokens may be numbered, and then no two are the same.
-/

namespace BlockScript.Grammar

open Parse

/-! ### What has been spent -/

/-- The tokens that errors are blamed on, and the equals signs that errors may yet be blamed on. -/
def marks (errors : List Error) (frames : List Frame) : List Token :=
  errors.map Error.token ++ (signs frames).map Prod.fst

theorem marks_of_signs {left frames : List Frame} (errors : List Error)
    (same : signs left = signs frames) : marks errors left = marks errors frames := by
  rw [marks, marks, same]

theorem marks_group (errors : List Error) (frames : List Frame) :
    marks errors (.group :: frames) = marks errors frames := by
  simp [marks, signs, Function.comp_def]

theorem marks_assign (errors : List Error) (target : Expr) (equals : Token) (frames : List Frame) :
    (marks errors (.assign target equals :: frames)).Perm (equals :: marks errors frames) :=
  List.perm_middle

/-- When an expression ends, the equals signs in it are spent, or kept no longer. -/
theorem subperm_close (errors : List Error) (frames : List Frame) (operand : Expr) :
    (marks (Parse.close errors frames operand).badTargets
      ((Parse.close errors frames operand).outside.getD [])).Subperm (marks errors frames) := by
  fun_induction Parse.close errors frames operand with
  | case1 _ _ _ _ ih | case2 _ _ _ _ _ _ ih => exact ih
  | case3 errors name equals rest _ ih =>
    exact ih.trans ((List.sublist_cons_self _ _).subperm.trans
      (marks_assign errors (.lookup name) equals rest).symm.subperm)
  | case4 errors target equals rest _ _ ih =>
    -- The sign moves from those that are kept to those that are spent.
    exact ih.trans (marks_assign errors target equals rest).symm.subperm
  | case5 errors rest _ =>
    rw [marks_group]
    exact List.Subperm.refl _
  | case6 => exact List.Subperm.refl _

/-! ### Open blocks -/

def openBlocks (contexts : List Context) : Nat :=
  contexts.countP Context.isBlock

def isBrace (token : Token) : Bool :=
  token.kind = .symbol .leftBrace

/-- A statement that is put where it belongs opens and closes no block. -/
theorem openBlocks_settle (state : State) (elseFollows : Bool) (statement : Stmt)
    (contexts : List Context) :
    openBlocks (state.settle elseFollows statement contexts).contexts = openBlocks contexts := by
  fun_induction State.settle state elseFollows statement contexts <;>
    simp_all [openBlocks, Context.isBlock, List.countP_cons]

/-! ### Reading a token -/

/-- What a token may change: it is spent or kept, or neither, and only a brace opens a block. -/
structure Spends (token : Token) (state : State) (left : List Frame) (next : State) : Prop where
  spent : (marks next.errors (frames next.mode)).Subperm (token :: marks state.errors left)
  opened : openBlocks next.contexts ≤ openBlocks state.contexts + if isBrace token then 1 else 0

section

variable {token : Token} {state next : State} {left : List Frame}

/-- A token that is neither spent nor kept, and opens no block. -/
theorem spends_nothing (sameErrors : next.errors = state.errors)
    (sameSigns : signs (frames next.mode) = signs left)
    (opened : openBlocks next.contexts ≤ openBlocks state.contexts) :
    Spends token state left next where
  spent := by
    rw [sameErrors, marks_of_signs _ sameSigns]
    exact List.Subperm.cons_self
  opened := Nat.le_add_right_of_le opened

theorem Spends.of_marks {errors : List Error} {outer : List Frame}
    (spends : Spends token { state with errors } outer next)
    (fewer : (marks errors outer).Subperm (marks state.errors left)) :
    Spends token state left next where
  spent := spends.spent.trans ((List.subperm_cons token).mpr fewer)
  opened := spends.opened

theorem subperm_marks_nil (errors : List Error) (left : List Frame) :
    (marks errors []).Subperm (marks errors left) := by
  rw [marks, marks, signs, List.map_nil, List.append_nil]
  exact (List.sublist_append_left _ _).subperm

theorem spends_fail (fault : Fault) : Spends token state left (state.fail fault token) where
  spent := by
    have idle : signs (frames (state.fail fault token).mode) = signs [] := by
      simp only [State.fail]
      split <;> rfl
    rw [marks_of_signs _ idle]
    exact (List.subperm_cons token).mpr (subperm_marks_nil state.errors left)
  opened := Nat.le_add_right_of_le (List.dropWhile_sublist _).countP_le

theorem spends_operand {purpose : Purpose} (reads : ReadsOperand state token left purpose next) :
    Spends token state left next := by
  cases reads with
  | unary | atom => exact spends_nothing rfl rfl (Nat.le_refl _)
  | group =>
    refine ⟨?_, Nat.le_add_right _ _⟩
    simp only [frames, marks_group]
    exact List.Subperm.cons_self
  | misfit => exact spends_fail _

theorem spends_end (reads : ReadsEnd state token next) : Spends token state left next := by
  cases reads with
  | statement | condition =>
    refine ⟨(subperm_marks_nil state.errors left).cons_right token, Nat.le_add_right_of_le ?_⟩
    simp [openBlocks, Context.isBlock]
  | misfit => exact spends_fail _

theorem spends_operator {purpose : Purpose} {operand : Expr}
    (reads : ReadsOperator state token left purpose operand next) :
    Spends token state left next := by
  have closed := subperm_close state.errors left operand
  cases reads with
  | binary => exact spends_nothing rfl (signs_reduce _ _ _) (Nat.le_refl _)
  | assign =>
    -- This is the only token that is kept.
    refine ⟨?_, Nat.le_add_right _ _⟩
    simp only [frames]
    rw [← marks_of_signs state.errors (signs_reduce 0 left operand)]
    exact (marks_assign _ _ _ _).subperm
  | groupEnd inside =>
    rw [inside] at closed
    exact ⟨closed.cons_right token, Nat.le_add_right _ _⟩
  | unclosed => exact (spends_fail _).of_marks closed
  | complete _ reads => exact (spends_end reads).of_marks closed

theorem spends_statement (reads : ReadsStatement state token next) :
    Spends token state [] next := by
  cases reads with
  | branches | prints => exact spends_nothing rfl rfl (Nat.le_refl _)
  | block opens =>
    refine ⟨List.Subperm.cons_self, ?_⟩
    simp [openBlocks, isBrace, Context.isBlock, opens, List.countP_cons]
  | expression reads => exact spends_operand reads

theorem spends_declaration (reads : ReadsDeclaration state token next) :
    Spends token state [] next := by
  cases reads with
  | declares => exact spends_nothing rfl rfl (Nat.le_refl _)
  | blockEnd _ inside =>
    refine spends_nothing rfl rfl ?_
    rw [inside]
    exact (List.sublist_cons_self _ _).countP_le
  | statement reads => exact spends_statement reads

theorem spends_reads (reads : Reads state token next) :
    Spends token state (frames state.mode) next := by
  cases reads with
  | declaration mode reads =>
    rw [mode]
    exact spends_declaration reads
  | statement mode reads =>
    rw [mode]
    exact spends_statement reads
  | otherwise mode taken =>
    rw [mode]
    refine spends_nothing (State.settle_errors _ _ _ _) ?_ (openBlocks_settle _ _ _ _).le
    rw [taken]
    rfl
  | after mode reads =>
    obtain ⟨spent, opened⟩ := spends_declaration reads
    rw [State.settle_errors] at spent
    rw [openBlocks_settle] at opened
    rw [mode]
    exact ⟨spent, opened⟩
  | variableName mode | initializer mode | variableEnd mode | conditionParen mode =>
    rw [mode]
    exact spends_nothing rfl rfl (Nat.le_refl _)
  | misfit => exact spends_fail _
  | operand mode reads =>
    rw [mode]
    exact spends_operand reads
  | operator mode reads =>
    rw [mode]
    exact spends_operator reads
  | recovering mode reads =>
    rw [mode]
    cases reads with
    | semicolon => exact spends_nothing rfl rfl (Nat.le_refl _)
    | resumes _ _ reads => exact spends_declaration reads
    | skips => exact spends_nothing rfl (by rw [mode]) (Nat.le_refl _)

end

/-! ### Reading tokens -/

/-- What holds of a parse that has read some tokens: those that have been spent or are kept are,
in some order, some of these, and so are the braces of the open blocks. -/
structure Charged (tokens : List Token) (state : State) : Prop where
  spent : (marks state.errors (frames state.mode)).Subperm tokens
  opened : openBlocks state.contexts ≤ tokens.countP isBrace

section

variable {tokens : List Token} {state : State}

theorem charged_initial : Charged [] State.initial :=
  ⟨List.nil_subperm, Nat.le_refl 0⟩

theorem Charged.step (charged : Charged tokens state) (token : Token) :
    Charged (token :: tokens) (state.step token) := by
  obtain ⟨spent, opened⟩ := spends_reads (state.reads_step token)
  constructor
  · exact spent.trans ((List.subperm_cons token).mpr charged.spent)
  · rw [List.countP_cons]
    exact opened.trans (Nat.add_le_add_right charged.opened _)

theorem Charged.perm {others : List Token} (charged : Charged tokens state)
    (same : tokens.Perm others) : Charged others state where
  spent := charged.spent.trans same.subperm
  opened := same.countP_eq isBrace ▸ charged.opened

theorem charged_reading (tokens : List Token) : Charged tokens (reading tokens) := by
  induction tokens using List.reverseRecOn with
  | nil => exact charged_initial
  | append_singleton tokens token ih =>
    rw [reading_append]
    exact (ih.step token).perm (List.perm_append_singleton token tokens).symm

/-- The end of the text is read like a token if it comes too early. -/
theorem Charged.atEnd (charged : Charged tokens state) (mark : Token) :
    ((state.atEnd mark).errors.map Error.token).Subperm (mark :: tokens) ∧
      openBlocks (state.atEnd mark).contexts ≤ (mark :: tokens).countP isBrace := by
  have errors (state : State) : (state.errors.map Error.token).Subperm
      (marks state.errors (frames state.mode)) := (List.sublist_append_left _ _).subperm
  have skipped := charged.opened.trans (List.sublist_cons_self mark tokens).countP_le
  have kept := ((errors state).trans charged.spent).cons_right mark
  unfold State.atEnd
  split
  · exact ⟨kept, skipped⟩
  · exact ⟨kept, skipped⟩
  next =>
    rw [State.settle_errors, openBlocks_settle]
    exact ⟨kept, skipped⟩
  · obtain ⟨spent, opened⟩ := charged.step mark
    exact ⟨(errors _).trans spent, opened⟩

/-- Every open block is one more error at the end. -/
theorem Charged.finish (charged : Charged tokens state) {mark : Token}
    (ends : mark.isEnd = true) :
    ((state.finish mark).errors.map Error.token).Subperm
      (tokens ++ List.replicate (tokens.countP isBrace + 1) mark) := by
  obtain ⟨spent, opened⟩ := charged.atEnd mark
  have noBrace : isBrace mark = false := by
    have kind : mark.kind = .endOfInput := by simpa [Token.isEnd] using ends
    simp [isBrace, kind]
  rw [List.countP_cons_of_neg (by simp [noBrace])] at opened
  have errors : (state.finish mark).errors.map Error.token =
      ((state.atEnd mark).errors.map Error.token).reverse ++
        List.replicate (openBlocks (state.atEnd mark).contexts) mark := by
    simp [State.finish, openBlocks, List.countP_eq_length_filter]
  have unclosed : (List.replicate (openBlocks (state.atEnd mark).contexts) mark).Subperm
      (List.replicate (tokens.countP isBrace) mark) :=
    ((List.replicate_sublist_replicate mark).mpr opened).subperm
  rw [errors]
  exact (((List.reverse_perm _).subperm.trans spent).append unclosed).trans
    List.perm_middle.symm.subperm

end

/-- The errors of a parse are blamed on tokens of the text, on each at most as often as it stands
there, and on the end of the text. -/
theorem subperm_errors (tokens : List Token) :
    ((ofTokens tokens).errors.map Error.token).Subperm
      (text tokens ++ List.replicate ((text tokens).countP isBrace + 1) (endMark tokens)) :=
  (charged_reading (text tokens)).finish (isEnd_endMark tokens)

/-! ### Places -/

theorem text_numbered_looksAt (tokens : List Token) :
    text (numbered (looksAt tokens)) = numbered (text tokens) ∧
      endMark (numbered (looksAt tokens)) =
        { endMark tokens with line := (text tokens).length } := by
  obtain ⟨more, parts⟩ := numbered_append_cons (text tokens) (endMark tokens) []
  have isEnd : ({ endMark tokens with line := (text tokens).length } : Token).isEnd = true :=
    isEnd_endMark tokens
  rw [looksAt, parts]
  exact text_mark (isEnd_of_mem_numbered (plain_text tokens)) isEnd more

theorem map_line_numbered (tokens : List Token) :
    (numbered tokens).map Token.line = List.range tokens.length := by
  apply List.ext_getElem
  · simp [numbered]
  · simp [numbered]

theorem countP_isBrace_numbered (tokens : List Token) :
    (numbered tokens).countP isBrace = tokens.countP isBrace := by
  conv_rhs => rw [← map_restored_numbered tokens, List.countP_map]
  rfl

/-- The places of the errors are those of the tokens of the text, each of them no more than once,
and the end of the text. -/
theorem count_place_le (tokens : List Token) (place : Nat) :
    ((blamed tokens).map Prod.snd).count place ≤
      (List.range (text tokens).length ++
        List.replicate ((text tokens).countP isBrace + 1) (text tokens).length).count place := by
  have spent :=
    (subperm_errors (numbered (looksAt tokens))).countP_le ((· == place) ∘ Token.line)
  obtain ⟨sameText, sameMark⟩ := text_numbered_looksAt tokens
  rw [sameText, sameMark, countP_isBrace_numbered, ← List.countP_map, ← List.countP_map] at spent
  have errors : (blamed tokens).map Prod.snd =
      ((ofTokens (numbered (looksAt tokens))).errors.map Error.token).map Token.line := by
    rw [blamed_eq, List.map_map, List.map_map]
    rfl
  have places : List.range (text tokens).length ++
      List.replicate ((text tokens).countP isBrace + 1) (text tokens).length =
        (numbered (text tokens) ++ List.replicate ((text tokens).countP isBrace + 1)
          { endMark tokens with line := (text tokens).length }).map Token.line := by
    rw [List.map_append, map_line_numbered, List.map_replicate]
  rw [errors, places]
  exact spent

/-- **No token is blamed twice.** Each error of a parse has a place, where the token stands that
it takes its line and its location from: a token of the text or the mark at its end. No two errors
have the same place, unless it is the end of the text; and there are no more of these than opening
braces in the text and one besides. -/
theorem blamed_once (tokens : List Token) :
    (blamed tokens).map Prod.fst = (ofTokens tokens).errors ∧
    (∀ error ∈ blamed tokens, ∃ token, (looksAt tokens)[error.2]? = some token ∧
      error.1.report.line = token.line ∧
      error.1.report.location = if token.isEnd then .atEnd else .lexeme token.lexeme) ∧
    (∀ place < (text tokens).length, ((blamed tokens).map Prod.snd).count place ≤ 1) ∧
    ((blamed tokens).map Prod.snd).count (text tokens).length ≤
      (text tokens).countP isBrace + 1 := by
  obtain ⟨same, stands, -⟩ := pairwise_blamed tokens
  refine ⟨same, fun error member => ⟨error.1.token, stands error member, rfl, rfl⟩, ?_, ?_⟩
  · intro place inside
    have bound := count_place_le tokens place
    have once : (List.range (text tokens).length).count place ≤ 1 :=
      List.nodup_iff_count_le_one.mp List.nodup_range place
    have noMark : (List.replicate ((text tokens).countP isBrace + 1)
        (text tokens).length).count place = 0 :=
      List.count_eq_zero.mpr fun member => by
        have same := List.eq_of_mem_replicate member
        omega
    rw [List.count_append, noMark] at bound
    exact bound.trans once
  · have bound := count_place_le tokens (text tokens).length
    have noToken : (List.range (text tokens).length).count (text tokens).length = 0 :=
      List.count_eq_zero.mpr List.not_mem_range_self
    rwa [List.count_append, noToken, Nat.zero_add, List.count_replicate_self] at bound

/-- The bound is met by blocks that are left open in the middle of a statement. -/
example : (blamed (scan "\x7b \x7b 1").tokens).map Prod.snd = [3, 3, 3] := by
  decide +kernel

end BlockScript.Grammar
