import BlockScript.Proofs.Printing.RoundTrip
import BlockScript.Proofs.Run.Relabel
import BlockScript.Session

/-!
# Canonical texts run as their sources

## Main result

`runEchoing_canonical`: a program without infinite numbers, its run with an echo and a run of
the text that is echoed do the same to a session and are stopped by the same error, if by any.

## Proof strategy

The text that is echoed is read as the same program on other lines, and a run does not look
at lines.
-/

namespace BlockScript

/-- The report with the token of its runtime error replaced. -/
def Report.map (f : Token → Token) (report : Report) : Report :=
  ⟨report.syntaxErrors, report.runtimeError.map (RuntimeError.map f)⟩

theorem keeps_unlined : Run.Keeps Token.unlined :=
  ⟨fun _ => rfl, fun _ => rfl⟩

namespace Session

variable {W : Type} [Writer W]

/-- Replacing tokens of a program leaves what a run does to a session. -/
theorem execute_map {f : Token → Token} (keeps : Run.Keeps f) (session : Session W)
    (program : Program) :
    session.execute (Stmt.mapAll f program) =
      ((session.execute program).1.map f, (session.execute program).2) := by
  simp only [execute, Interpreter.interpret_eq, Stmt.execAll_map keeps, Run.relabel]
  -- A report takes nothing of a run but the error that stopped it.
  rcases Stmt.execAll program session with ⟨_ | _, _⟩ <;> rfl

/-- Programs that are the same but for lines run in the same way but for lines. -/
theorem execute_eq_of_unlined (session : Session W) {program other : Program}
    (same : Stmt.mapAll Token.unlined program = Stmt.mapAll Token.unlined other) :
    (session.execute program).2 = (session.execute other).2 ∧
      (session.execute program).1.map Token.unlined =
        (session.execute other).1.map Token.unlined := by
  have runs := congrArg session.execute same
  rw [execute_map keeps_unlined, execute_map keeps_unlined] at runs
  exact ⟨(Prod.mk.inj runs).2, (Prod.mk.inj runs).1⟩

theorem syntaxErrors_execute (session : Session W) (program : Program) :
    (session.execute program).1.syntaxErrors = [] := by
  unfold execute
  split <;> rfl

theorem run_of_parses (session : Session W) {text : String} (parses : (parse text).errors = []) :
    session.run text = session.execute (parse text).program := by
  simp [run, parses]

theorem runEchoing_of_parses (session : Session W) (echo : Bool) {text : String}
    (parses : (parse text).errors = []) :
    session.runEchoing echo text =
      ((session.execute (parse text).program).1,
        if echo then Program.render (parse text).program else "",
        (session.execute (parse text).program).2) := by
  cases echo with
  | true => simp [runEchoing, parses]
  | false => simp [runEchoing, session.run_of_parses parses]

/-- **Canonical texts run as their sources.** A text that is a program without infinite
numbers, run with an echo or without, and the text that the echo is, run with an echo or
without: all leave the same session behind, with the same output and the same bindings, and
all report the same. A run that asks for no echo is one with none, for either text. Only the
line of the token that a runtime error is blamed on may be another one in a run of the echo. -/
theorem runEchoing_canonical (session : Session W) (source : String)
    (parses : (parse source).errors = []) (finite : Program.IsFinite (parse source).program) :
    let echoed := session.runEchoing true source
    let plain := session.runEchoing false source
    session.run source = (plain.1, plain.2.2) ∧
    plain.1 = echoed.1 ∧ plain.2.2 = echoed.2.2 ∧ echoed.1.syntaxErrors = [] ∧
    ∀ echo,
      let again := session.runEchoing echo echoed.2.1
      session.run echoed.2.1 = (again.1, again.2.2) ∧ again.2.2 = echoed.2.2 ∧
      again.1.map Token.unlined = echoed.1.map Token.unlined := by
  obtain ⟨noErrors, _, same⟩ := parse_render source
  -- Both runs are of programs, and these are the same but for lines.
  have runs := execute_eq_of_unlined session (same finite)
  have echoed := runEchoing_of_parses session true parses
  have plain := runEchoing_of_parses session false parses
  refine ⟨session.run_eq_runEchoing false source, ?_⟩
  rw [echoed, plain]
  refine ⟨rfl, rfl, syntaxErrors_execute session _, fun echo => ⟨run_eq_runEchoing _ _ _, ?_⟩⟩
  have again := runEchoing_of_parses session echo noErrors
  rw [if_pos rfl, again]
  exact runs

/-- A run that fails on the second line, and on the only line of what it echoes. -/
theorem runEchoing_canonical_undefined :
    (parse "// a sum\nprint 1.50 + x;").errors = [] ∧
    Program.IsFinite (parse "// a sum\nprint 1.50 + x;").program ∧
    ((new Sink.unlimited).runEchoing true "// a sum\nprint 1.50 + x;").2.1 = "print 1.5 + x;\n" ∧
    ((new Sink.unlimited).runEchoing false
        ((new Sink.unlimited).runEchoing true "// a sum\nprint 1.50 + x;").2.1).1.map Token.unlined =
      ((new Sink.unlimited).runEchoing true "// a sum\nprint 1.50 + x;").1.map Token.unlined := by
  have parses : (parse "// a sum\nprint 1.50 + x;").errors = [] := by decide +kernel
  have finite : Program.IsFinite (parse "// a sum\nprint 1.50 + x;").program := by
    have literals : Stmt.allLiterals (parse "// a sum\nprint 1.50 + x;").program =
        [.number (Number.ofNumeral ['1'] ['5', '0'])] := by decide +kernel
    intro x member
    rw [literals] at member
    obtain rfl : x = Number.ofNumeral ['1'] ['5', '0'] := by simpa using member
    decide +kernel
  refine ⟨parses, finite, by decide +kernel, ?_⟩
  exact ((runEchoing_canonical (new Sink.unlimited) _ parses finite).2.2.2.2 false).2.2

end Session
end BlockScript
