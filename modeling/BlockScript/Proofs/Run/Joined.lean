import BlockScript.Proofs.Grammar.Concatenation
import BlockScript.Proofs.Printing.RoundTrip
import BlockScript.Proofs.Run.Echo
import BlockScript.Proofs.Source.Joined

/-!
# A session of many texts and a run of one

## Main result

`run_joined`: to run programs one after the other, up to the first one that is stopped by an
error, is to run the one text that has them on lines of their own.

## Proof strategy

Two texts joined by a newline are parsed as the program of the first and then that of the
second, whose tokens are further down. To run programs in a row is to run the one and then,
unless it was stopped, the other; and a run does not look at lines. The rest is an induction
on the list of texts.
-/

namespace BlockScript

variable {W : Type} [Writer W]

open Grammar Parse

/-! ### Parsing texts in a row -/

theorem relabels_down (lines : Nat) : Relabels (Token.down lines) :=
  ⟨fun _ => rfl, fun _ => rfl⟩

theorem keeps_down (lines : Nat) : Run.Keeps (Token.down lines) :=
  ⟨fun _ => rfl, fun _ => rfl⟩

theorem parse_errors_eq_nil_iff {source : String} :
    (parse source).errors = [] ↔
      (scan source).errors = [] ∧ (ofTokens (scan source).tokens).errors = [] := by
  simp [parse]

theorem exists_isEnd_scan (source : String) :
    ∃ token ∈ (scan source).tokens, token.isEnd = true := by
  rw [scan_tokens_eq]
  exact ⟨_, List.mem_append_right _ List.mem_cons_self, rfl⟩

/-- The mark of the end of a text is its last token. -/
theorem text_scan (source : String) :
    Grammar.text (scan source).tokens = (scan source).tokens.dropLast := by
  have genuine : Genuine (segmentTokens (pieces source.toList)) := fun token member =>
    isGenuine_of_mem_scan member
  rw [scan_tokens_eq, List.dropLast_concat]
  exact takeWhile_genuine genuine rfl

theorem text_scan_append (source : String) (more : List Token) :
    Grammar.text ((scan source).tokens.dropLast ++ more) =
      Grammar.text (scan source).tokens ++ Grammar.text more := by
  rw [← text_scan]
  exact Grammar.text_append (Grammar.plain_text _) more

theorem parse_newline {source more : String} (parses : (parse source).errors = [])
    (parsesMore : (parse more).errors = []) :
    parse (source ++ "\n" ++ more) =
      ⟨(parse source).program ++
        Stmt.mapAll (Token.down (source.toList.count '\n' + 1)) (parse more).program, []⟩ := by
  obtain ⟨scanned, noErrors⟩ := parse_errors_eq_nil_iff.mp parses
  obtain ⟨scannedMore, noMore⟩ := parse_errors_eq_nil_iff.mp parsesMore
  obtain ⟨tokens, errors⟩ := scan_newline (closed_of_errors scanned) more
  -- The second text is parsed in the same way further down.
  have below := ofTokens_map (relabels_down (source.toList.count '\n' + 1))
    (exists_isEnd_scan more)
  have row := text_scan_append source
    ((scan more).tokens.map (Token.down (source.toList.count '\n' + 1)))
  have noMoreBelow : (ofTokens ((scan more).tokens.map
      (Token.down (source.toList.count '\n' + 1)))).errors = [] := by
    rw [below, Result.map, noMore]
    rfl
  have both := ofTokens_append row noErrors noMoreBelow
  rw [parse]
  simp only [tokens, errors, scanned, scannedMore, both, below, Result.map]
  rw [Stmt.mapAll_eq]
  rfl

/-! ### Running programs in a row -/

theorem Stmt.execAll_append (stmts more : List Stmt) :
    (execAll (stmts ++ more) : Run W Unit) = execAll stmts >>= fun _ => execAll more := by
  induction stmts with
  | nil => rfl
  | cons first rest ih => rw [List.cons_append, execAll, execAll, ih, bind_assoc]

namespace Session

theorem execute_append (session : Session W) (program more : Program) :
    session.execute (program ++ more) =
      if (session.execute program).1.hasRuntimeError then session.execute program
      else (session.execute program).2.execute more := by
  simp only [execute, Interpreter.interpret_eq, Stmt.execAll_append, Run.bind_apply]
  rcases Stmt.execAll program session with ⟨_ | _, _⟩ <;> rfl

/-- A text behind another one runs from where that has come, and blames its errors further
down. -/
theorem run_newline (session : Session W) {source more : String}
    (parses : (parse source).errors = []) (parsesMore : (parse more).errors = []) :
    session.run (source ++ "\n" ++ more) =
      if (session.run source).1.hasRuntimeError then session.run source
      else
        let (report, last) := (session.run source).2.run more
        (report.map (Token.down (source.toList.count '\n' + 1)), last) := by
  have joined := parse_newline parses parsesMore
  rw [run_of_parses _ parses, run_of_parses _ parsesMore,
    run_of_parses _ (congrArg Parsed.errors joined), joined, execute_append,
    execute_map (keeps_down _)]

/-- Runs texts one after the other, up to the first one that is stopped by an error. -/
def runInTurn (session : Session W) : List String → List Report × Session W
  | [] => ([], session)
  | source :: rest =>
    let (report, after) := session.run source
    if report.hasRuntimeError then ([report], after)
    else
      let (reports, last) := after.runInTurn rest
      (report :: reports, last)

end Session

/-- What stands in front of the text with an index when texts are joined by newlines. -/
def textBefore (texts : List String) (index : Nat) : String :=
  "\n".intercalate (texts.take index ++ [""])

/-- The number of lines above the text with an index. -/
def linesBefore (texts : List String) (index : Nat) : Nat :=
  (textBefore texts index).toList.count '\n'

@[simp] theorem linesBefore_zero (texts : List String) : linesBefore texts 0 = 0 := by
  simp [linesBefore, textBefore]

theorem linesBefore_succ (first : String) (rest : List String) (index : Nat) :
    linesBefore (first :: rest) (index + 1) =
      linesBefore rest index + (first.toList.count '\n' + 1) := by
  have nonempty : rest.take index ++ [""] ≠ [] := by simp
  rw [linesBefore, textBefore, List.take_succ_cons, List.cons_append,
    String.intercalate_cons_of_ne_nil nonempty]
  simp [linesBefore, textBefore]
  omega

@[simp] theorem Report.hasRuntimeError_map (f : Token → Token) (report : Report) :
    (report.map f).hasRuntimeError = report.hasRuntimeError :=
  Option.isSome_map

theorem RuntimeError.map_down (error : RuntimeError) (lines more : Nat) :
    (error.map (Token.down lines)).map (Token.down more) =
      error.map (Token.down (lines + more)) := by
  simp [RuntimeError.map, Token.down, Nat.add_assoc]

theorem parse_empty : parse "" = ⟨[], []⟩ := by
  have scanned : scan "" = ⟨[Token.endOfInput 1], []⟩ := by
    simp [scan_eq_items, Cursor.items, Cursor.start, itemsFrom]
  rw [parse, scanned]
  rfl

/-- Programs on lines of their own are a program. -/
theorem parses_joined {texts : List String} (parses : ∀ text ∈ texts, (parse text).errors = []) :
    (parse ("\n".intercalate texts)).errors = [] := by
  induction texts with
  | nil => rw [String.intercalate_nil, parse_empty]
  | cons first rest ih =>
    have parsesFirst := parses first List.mem_cons_self
    have parsesRest := ih (fun text member => parses text (List.mem_cons_of_mem _ member))
    by_cases last : rest = []
    · rw [last, String.intercalate_singleton]
      exact parsesFirst
    · rw [String.intercalate_cons_of_ne_nil last, parse_newline parsesFirst parsesRest]

namespace Session

theorem run_empty (session : Session W) : session.run "" = (⟨[], none⟩, session) := by
  rw [run_of_parses session (congrArg Parsed.errors parse_empty), parse_empty]
  simp [execute, Interpreter.interpret_eq, Stmt.execAll, Run.pure_apply]

/-- The first of the texts runs first; if it is not stopped, the others run. -/
theorem run_intercalate_cons (session : Session W) {first : String} {rest : List String}
    (parses : ∀ text ∈ first :: rest, (parse text).errors = []) :
    session.run ("\n".intercalate (first :: rest)) =
      if (session.run first).1.hasRuntimeError then session.run first
      else
        let (report, last) := (session.run first).2.run ("\n".intercalate rest)
        (report.map (Token.down (first.toList.count '\n' + 1)), last) := by
  have parsesFirst := parses first List.mem_cons_self
  have parsesRest := fun text member => parses text (List.mem_cons_of_mem first member)
  by_cases alone : rest = []
  · -- Behind the last text stands nothing, and nothing is what that does.
    rw [alone, String.intercalate_singleton, String.intercalate_nil, run_empty]
    split
    · rfl
    next goesOn =>
      have report : (session.run first).1 = ⟨[], none⟩ := by
        have noErrors := syntaxErrors_execute session (parse first).program
        rw [run_of_parses session parsesFirst] at goesOn ⊢
        simp only [Report.hasRuntimeError, Bool.not_eq_true, Option.isSome_eq_false_iff,
          Option.isNone_iff_eq_none] at goesOn
        rw [← noErrors, ← goesOn]
      exact Prod.ext report rfl
  · rw [String.intercalate_cons_of_ne_nil alone,
      run_newline session parsesFirst (parses_joined parsesRest)]

/-- **A session of many texts is a run of one.** Programs that are run one after the other, up
to the first one that is stopped by an error, and the one text that has them on lines of their
own leave the same session behind, with the same output and the same bindings. The one text is
stopped if one of the programs is, and by the same error; only the line of the token to blame is
further down, by the lines in front of that program. -/
theorem run_joined (session : Session W) (texts : List String)
    (parses : ∀ text ∈ texts, (parse text).errors = []) :
    let whole := session.run ("\n".intercalate texts)
    let turns := session.runInTurn texts
    whole.2 = turns.2 ∧ whole.1.syntaxErrors = [] ∧
    (whole.1.hasRuntimeError = true ↔ ∃ report ∈ turns.1, report.hasRuntimeError = true) ∧
    ∀ (index : Nat) (report : Report) (error : RuntimeError),
      turns.1[index]? = some report → report.runtimeError = some error →
      whole.1.runtimeError = some (error.map (Token.down (linesBefore texts index))) := by
  induction texts generalizing session with
  | nil => simp [runInTurn, run_empty, Report.hasRuntimeError]
  | cons first rest ih =>
    have noErrors : (session.run first).1.syntaxErrors = [] := by
      rw [run_of_parses session (parses first List.mem_cons_self)]
      exact syntaxErrors_execute session _
    have later := ih (session.run first).2
      (fun text member => parses text (List.mem_cons_of_mem first member))
    intro whole turns
    have wholeEq : whole = _ := run_intercalate_cons session parses
    by_cases stopped : (session.run first).1.hasRuntimeError = true
    · -- The first text is stopped, and the others are not reached.
      rw [if_pos stopped] at wholeEq
      have turnsEq : turns = ([(session.run first).1], (session.run first).2) := by
        simp only [turns, runInTurn, if_pos stopped]
      rw [wholeEq, turnsEq]
      refine ⟨rfl, noErrors, by simp, ?_⟩
      intro index report error found blamed
      obtain ⟨rfl, rfl⟩ : index = 0 ∧ (session.run first).1 = report := by
        simpa [List.getElem?_singleton] using found
      rw [blamed, linesBefore_zero]
      rfl
    · obtain ⟨sameSession, sameErrors, sameEnd, sameError⟩ := later
      rw [if_neg stopped] at wholeEq
      have turnsEq : turns = ((session.run first).1 :: ((session.run first).2.runInTurn rest).1,
          ((session.run first).2.runInTurn rest).2) := by
        simp only [turns, runInTurn, if_neg stopped]
      rw [wholeEq, turnsEq]
      refine ⟨sameSession, sameErrors, ?_, ?_⟩
      · rw [Report.hasRuntimeError_map, sameEnd]
        simp [stopped]
      · intro index report error found blamed
        cases index with
        | zero =>
          obtain rfl : (session.run first).1 = report := by simpa using found
          simp [Report.hasRuntimeError, blamed] at stopped
        | succ index =>
          have ofRest := sameError index report error (by simpa using found) blamed
          simp only [Report.map, ofRest, Option.map_some, RuntimeError.map_down,
            linesBefore_succ]

/-- The second of three programs is stopped inside of its block. -/
theorem run_joined_stopped :
    (∀ text ∈ ["var a = 1; // one", "print a;\n{ var a = 2; print a + nil; }", "print 3;"],
      (parse text).errors = []) ∧
    ((new Sink.unlimited).run
        "var a = 1; // one\nprint a;\n{ var a = 2; print a + nil; }\nprint 3;").1.runtimeError =
      some ⟨.operandsMustBeNumbersOrStrings, ⟨.symbol .plus, "+", none, 3⟩⟩ := by
  have parses : ∀ text ∈ ["var a = 1; // one", "print a;\n{ var a = 2; print a + nil; }",
      "print 3;"], (parse text).errors = [] := by decide +kernel
  refine ⟨parses, ?_⟩
  have joined := run_joined (new Sink.unlimited) _ parses
  exact joined.2.2.2 1 ⟨[], some ⟨.operandsMustBeNumbersOrStrings, ⟨.symbol .plus, "+", none, 2⟩⟩⟩
    _ (by decide +kernel) rfl

end Session
end BlockScript
