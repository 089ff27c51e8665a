import BlockScript.Proofs.Run.Overwriting
import BlockScript.Parse.Program
import BlockScript.Run.Execution

/-!
# Output that is cut off

A sink with room for a number of bytes keeps the first bytes of an output and then refuses all
others.

## Main results

`Sink.write_append`: what is written in pieces is kept and refused as if it were written at once.
`Interpreter.interpret_truncates`: a program whose output has room does what it does without a
limit. Any other program does so up to the print that goes beyond the limit, and is stopped there.

## Proof strategy

1. The prints of a run without a limit are listed in order, each with the state in which its value
   is written (`Stmt.printings`).
2. What comes before the print that goes beyond the limit has room, so it takes some room away and
   changes nothing else. What comes after it is not reached, and the blocks around it are left
   (`Run.Truncates`).
3. Such computations are put together as programs are.
-/

namespace BlockScript

/-! ### First bytes -/

private theorem extract_append_of_le {bytes : ByteArray} (more : ByteArray) {limit : Nat}
    (short : limit ≤ bytes.size) : (bytes ++ more).extract 0 limit = bytes.extract 0 limit := by
  rw [ByteArray.extract_append, Nat.sub_eq_zero_of_le short, Nat.zero_sub, ByteArray.extract_same,
    ByteArray.append_empty]

private theorem extract_append_of_ge {bytes : ByteArray} (more : ByteArray) {limit : Nat}
    (long : bytes.size ≤ limit) :
    (bytes ++ more).extract 0 limit = bytes ++ more.extract 0 (limit - bytes.size) := by
  have whole : bytes.extract 0 limit = bytes := by
    rw [← Nat.max_eq_left long, ByteArray.extract_zero_max_size]
  rw [ByteArray.extract_append, whole, Nat.zero_sub]

/-! ### Prints -/

/-- A print of a run: its keyword, the value and the state in which the value is written. -/
structure Printing where
  keyword : Token
  value : Value
  moment : Interpreter Sink

namespace Printing

def bytes (printing : Printing) : ByteArray :=
  (printing.value.text ++ "\n").toUTF8

def output : List Printing → ByteArray
  | [] => .empty
  | first :: rest => first.bytes ++ output rest

/-- Whether a print is the one whose output goes beyond a number of bytes. -/
def Passes (printings : List Printing) (limit : Nat) (printing : Printing) : Prop :=
  ∃ before after, printings = before ++ printing :: after ∧
    (output before).size ≤ limit ∧ limit < (output before).size + printing.bytes.size

/-- The prints after a computation. If it fails there are none. -/
def following {α : Type} (outcome : Except RuntimeError α × Interpreter Sink)
    (printings : α → Interpreter Sink → List Printing) : List Printing :=
  match outcome with
  | (.ok value, state) => printings value state
  | (.error _, _) => []

end Printing

open Printing in
mutual

/-- The prints that are carried out when a statement is executed, in order. -/
def Stmt.printings : Stmt → Interpreter Sink → List Printing
  | .block body, state => Stmt.allPrintings body state.enterBlock
  | .expression _, _ => []
  | .ifThen condition consequent, state =>
    following (condition.eval state) fun chosen state =>
      if chosen.isTruthy then consequent.printings state else []
  | .ifElse condition consequent alternative, state =>
    following (condition.eval state) fun chosen state =>
      if chosen.isTruthy then consequent.printings state else alternative.printings state
  | .print keyword value, state =>
    following (value.eval state) fun found state => [⟨keyword, found, state⟩]
  | .var _ _, _ => []

/-- The prints that are carried out when statements are executed one after the other. -/
def Stmt.allPrintings : List Stmt → Interpreter Sink → List Printing
  | [], _ => []
  | first :: rest, state =>
    first.printings state ++
      following (first.exec state) fun _ state => Stmt.allPrintings rest state

end

namespace Printing

theorem output_append (printings more : List Printing) :
    output (printings ++ more) = output printings ++ output more := by
  induction printings with
  | nil => exact ByteArray.empty_append.symm
  | cons first rest ih => rw [List.cons_append, output, output, ih, ByteArray.append_assoc]

variable {printings more : List Printing} {limit : Nat} {printing : Printing}

theorem Passes.lt_size (passes : Passes printings limit printing) :
    limit < (output printings).size := by
  obtain ⟨before, after, rfl, -, beyond⟩ := passes
  rw [output_append, output, ByteArray.size_append, ByteArray.size_append]
  omega

theorem Passes.append_right (passes : Passes printings limit printing) (more : List Printing) :
    Passes (printings ++ more) limit printing := by
  obtain ⟨before, after, rfl, fits, beyond⟩ := passes
  exact ⟨before, after ++ more, by simp, fits, beyond⟩

/-- Prints in front that have room leave less of it. -/
theorem Passes.append_left (fits : (output printings).size ≤ limit)
    (passes : Passes more (limit - (output printings).size) printing) :
    Passes (printings ++ more) limit printing := by
  obtain ⟨before, after, rfl, fitsMore, beyond⟩ := passes
  refine ⟨printings ++ before, after, by simp, ?_, ?_⟩
  all_goals
    rw [output_append, ByteArray.size_append]
    omega

end Printing

/-! ### Sinks -/

/-- A text that is written piece by piece is kept as far as it would be in one piece, and refused
if it would be. -/
theorem Sink.write_append (sink : Sink) (bytes more : ByteArray) :
    sink.write (bytes ++ more) =
      match sink.write bytes with
      | (.ok (), next) => next.write more
      | (.error reason, next) => (.error reason, next) := by
  rcases sink with ⟨written, room, refusal⟩
  cases room with
  | none => simp [write, ByteArray.append_assoc]
  | some room =>
    by_cases fits : bytes.size ≤ room
    · by_cases fitsMore : more.size ≤ room - bytes.size
      · have fitsBoth : bytes.size + more.size ≤ room := by omega
        simp [write, fits, fitsMore, fitsBoth, ByteArray.append_assoc, Nat.sub_sub]
      · have tooLong : ¬ bytes.size + more.size ≤ room := by omega
        simp [write, fits, fitsMore, tooLong, ByteArray.append_assoc, extract_append_of_ge]
    · have tooLong : ¬ bytes.size + more.size ≤ room := by omega
      simp [write, fits, tooLong, extract_append_of_le more (Nat.le_of_not_le fits)]

def Interpreter.withRoom (state : Interpreter Sink) (room : Option Nat) : Interpreter Sink :=
  { state with sink := { state.sink with room } }

/-! ### Computations -/

namespace Run

open Interpreter Printing

variable {α β : Type}

/-- Whether a run has been stopped because a print was refused, with as much of an output as was
taken. The scopes that there were in `state` bind what they bound when the print was reached. -/
structure Refused (state : Interpreter Sink) (taken : ByteArray) (printing : Printing)
    (held : Except RuntimeError α × Interpreter Sink) : Prop where
  blamed : held.1 = .error ⟨.output state.sink.refusal.reason, printing.keyword⟩
  written : held.2.sink.written = state.sink.written ++ taken
  bindings : ∀ scope < state.scopes.size, ∀ name,
    held.2.scopes.bound? scope name = printing.moment.scopes.bound? scope name

/-- What becomes of a run with a limit, if `free` is what becomes of it without one. -/
inductive Limited (state : Interpreter Sink) (limit : Nat) (printings : List Printing)
    (free held : Except RuntimeError α × Interpreter Sink) : Prop where
  | fits (enough : (output printings).size ≤ limit)
      (same : held = (free.1, free.2.withRoom (some (limit - (output printings).size))))
  | stops {printing : Printing} (passes : Passes printings limit printing)
      (refused : Refused state ((output printings).extract 0 limit) printing held)

/-- Whether limits truncate a computation that comes to the given prints. -/
structure Truncates (printings : Interpreter Sink → List Printing) (run : Run Sink α) : Prop where
  keeps : run.KeepsPlace
  writes : ∀ state : Interpreter Sink, state.sink.room = none →
    (run state).2.sink = { state.sink with
      written := state.sink.written ++ output (printings state) }
  limited : ∀ (state : Interpreter Sink) (limit : Nat), state.sink.room = none →
    Limited state limit (printings state) (run state) (run (state.withRoom (some limit)))

/-- A computation that writes nothing takes no notice of a limit. -/
theorem Silent.truncates {run : Run Sink α} (silent : run.Silent) (keeps : run.KeepsPlace) :
    run.Truncates fun _ => [] where
  keeps := keeps
  writes state _ := by
    rw [silent.sink_eq state, output, ByteArray.append_empty]
  limited state limit _ := by
    apply Limited.fits (Nat.zero_le limit)
    calc run (state.withRoom (some limit))
        = ((run state).1, { (run state).2 with sink := { state.sink with room := some limit } }) :=
          silent state _
      _ = ((run state).1, (run state).2.withRoom (some limit)) := by
          simp only [withRoom, silent.sink_eq state]

/-- What would come after a refused print does not happen. -/
theorem Refused.bind {state start : Interpreter Sink} {taken : ByteArray} {printing : Printing}
    {first : Run Sink α} (refused : Refused state taken printing (first start))
    (second : α → Run Sink β) :
    Refused state taken printing ((first >>= second) start) := by
  rw [bind_apply]
  revert refused
  rcases first start with ⟨error | value, last⟩
  · intro refused
    have blamed := Except.error.inj refused.blamed
    exact ⟨congrArg Except.error blamed, refused.written, refused.bindings⟩
  · intro refused
    cases refused.blamed

/-- The first computation uses up room, and the second one comes to its prints with what is left,
unless the first one has failed or has been stopped. -/
theorem Truncates.bind {first : Run Sink α} {second : α → Run Sink β}
    {printings : Interpreter Sink → List Printing} {more : α → Interpreter Sink → List Printing}
    (truncates : first.Truncates printings)
    (truncatesNext : ∀ value, (second value).Truncates (more value)) :
    (first >>= second).Truncates fun state =>
      printings state ++ following (first state) more where
  keeps := samePlace.bind truncates.keeps fun value => (truncatesNext value).keeps
  writes state free := by
    have wrote := truncates.writes state free
    rw [bind_apply]
    revert wrote
    rcases first state with ⟨_ | value, between⟩
    · intro wrote
      simpa only [following, List.append_nil] using wrote
    · intro wrote
      change between.sink = _ at wrote
      have freeBetween : between.sink.room = none := by
        rw [wrote]
        exact free
      have wroteMore := (truncatesNext value).writes between freeBetween
      simp only [following, output_append, wroteMore, wrote, ByteArray.append_assoc]
  limited state limit free := by
    have wrote := truncates.writes state free
    have place := truncates.keeps state
    cases truncates.limited state limit free with
    | stops passes refused =>
      apply Limited.stops (passes.append_right _)
      rw [output_append, extract_append_of_le _ (Nat.le_of_lt passes.lt_size)]
      exact refused.bind second
    | fits enough same =>
      rw [bind_apply, bind_apply, same]
      revert wrote place
      rcases first state with ⟨_ | value, between⟩
      · intro wrote _
        simp only [following, List.append_nil]
        exact .fits enough rfl
      · intro wrote place
        change between.sink = _ at wrote
        have size : between.scopes.size = state.scopes.size := SamePlace.size_eq place
        have freeBetween : between.sink.room = none := by
          rw [wrote]
          exact free
        simp only [following]
        cases (truncatesNext value).limited between
          (limit - (output (printings state)).size) freeBetween with
        | fits enoughMore sameMore =>
          apply Limited.fits
          · rw [output_append, ByteArray.size_append]
            omega
          · rw [sameMore, output_append, ByteArray.size_append, Nat.sub_sub]
        | stops passes refused =>
          apply Limited.stops (passes.append_left enough)
          constructor
          · rw [refused.blamed, wrote]
          · rw [refused.written, wrote, output_append, extract_append_of_ge _ enough,
              ByteArray.append_assoc]
          · rw [← size]
            exact refused.bindings

/-- A print that is refused inside of a block is refused for the block. -/
theorem Truncates.inBlock {body : Run Sink α} {printings : Interpreter Sink → List Printing}
    (truncates : body.Truncates printings) :
    (Run.inBlock body).Truncates fun state => printings state.enterBlock where
  keeps := samePlace.inBlock truncates.keeps
  writes state free := truncates.writes state.enterBlock free
  limited state limit free := by
    have place := truncates.keeps (state.enterBlock.withRoom (some limit))
    cases truncates.limited state.enterBlock limit free with
    | fits enough same =>
      apply Limited.fits enough
      change ((body (state.enterBlock.withRoom _)).1,
        (body (state.enterBlock.withRoom _)).2.leaveBlock state.current) = _
      rw [same]
      rfl
    | stops passes refused =>
      apply Limited.stops passes
      constructor
      · exact refused.blamed
      · exact refused.written
      · intro scope present name
        have inside : scope < state.enterBlock.scopes.size := by
          rw [size_enterBlock]
          exact Nat.lt_succ_of_lt present
        rw [← refused.bindings scope inside name]
        exact bound?_leaveBlock place present name

end Run

namespace Interpreter

open Run Printing

theorem truncates_print (keyword : Token) (value : Value) :
    (print keyword value : Run Sink Unit).Truncates fun state => [⟨keyword, value, state⟩] where
  keeps := samePlace.print keyword value
  writes state free := by
    simp [print, Writer.write, Sink.write, free, output, bytes]
  limited state limit free := by
    have whole : output [⟨keyword, value, state⟩] = (value.text ++ "\n").toUTF8 :=
      ByteArray.append_empty
    by_cases enough : (value.text ++ "\n").toUTF8.size ≤ limit
    · apply Limited.fits
      · rw [whole]
        exact enough
      · rw [whole]
        simp only [print, withRoom, Writer.write, Sink.write, free, if_pos enough]
    · have passes : Passes [⟨keyword, value, state⟩] limit ⟨keyword, value, state⟩ := by
        refine ⟨[], [], rfl, Nat.zero_le _, ?_⟩
        rw [output, ByteArray.size_empty, Nat.zero_add]
        exact Nat.lt_of_not_le enough
      apply Limited.stops passes
      · rw [whole]
        simp only [print, withRoom, Writer.write, Sink.write, if_neg enough]
        exact ⟨rfl, rfl, fun _ _ _ => rfl⟩

end Interpreter

/-! ### Programs -/

open Run Interpreter

theorem Expr.eval_truncates (expr : Expr) : (expr.eval : Run Sink Value).Truncates fun _ => [] :=
  expr.eval_silent.truncates expr.eval_keepsPlace

mutual

theorem Stmt.exec_truncates (stmt : Stmt) : stmt.exec.Truncates stmt.printings := by
  cases stmt with
  | block body => exact (execAll_truncates body).inBlock
  | expression value =>
    have silent : (exec (.expression value) : Run Sink Unit).Silent :=
      value.eval_silent.bind fun _ => silent_pure ()
    exact silent.truncates (exec_respects samePlace _)
  | ifThen condition consequent =>
    refine condition.eval_truncates.bind fun chosen => ?_
    cases chosen.isTruthy with
    | true => exact exec_truncates consequent
    | false => exact (silent_pure ()).truncates (samePlace.pure ())
  | ifElse condition consequent alternative =>
    refine condition.eval_truncates.bind fun chosen => ?_
    cases chosen.isTruthy with
    | true => exact exec_truncates consequent
    | false => exact exec_truncates alternative
  | print keyword value =>
    exact value.eval_truncates.bind fun found => truncates_print keyword found
  | var name initializer =>
    have silent : (exec (.var name initializer) : Run Sink Unit).Silent := by
      cases initializer with
      | none => exact silent_define name.lexeme .nil
      | some value => exact value.eval_silent.bind fun found => silent_define name.lexeme found
    exact silent.truncates (exec_respects samePlace _)

theorem Stmt.execAll_truncates (stmts : List Stmt) :
    (execAll stmts).Truncates (allPrintings stmts) := by
  cases stmts with
  | nil => exact (silent_pure ()).truncates (samePlace.pure ())
  | cons first rest => exact (exec_truncates first).bind fun _ => execAll_truncates rest

end

/-! ### Main theorem -/

namespace Interpreter

open Printing

/-- A limit on the output only truncates a run. Let `printings` be the prints of a run without a
limit, in order. What they write is what the run writes. If there is room for all of it, nothing
else changes. If not, the first bytes are written that there is room for; the run is stopped by the
print that goes beyond them, and its error is blamed on the keyword of that print. Then the scopes
that there were bind what they bound in the run without a limit, when the value of that print was
known, and the current scope is the one in which the run began. -/
theorem interpret_truncates (program : Program) (state : Interpreter Sink) (limit : Nat) :
    let free := interpret program (state.withRoom none)
    let held := interpret program (state.withRoom (some limit))
    let printings := Stmt.allPrintings program (state.withRoom none)
    let written := Printing.output printings
    free.2.sink.written = state.sink.written ++ written ∧
    (written.size ≤ limit →
      held = (free.1, free.2.withRoom (some (limit - written.size)))) ∧
    (limit < written.size →
      ∃ printing, Passes printings limit printing ∧
        held.1 = .error ⟨.output state.sink.refusal.reason, printing.keyword⟩ ∧
        held.2.sink.written = state.sink.written ++ written.extract 0 limit ∧
        (∀ scope < state.scopes.size, ∀ name,
          held.2.scopes.bound? scope name = printing.moment.scopes.bound? scope name) ∧
        held.2.scopes.links = state.scopes.links ∧
        held.2.current = state.current) := by
  intro free held printings written
  have truncates := Stmt.execAll_truncates program
  rw [← interpret_eq] at truncates
  have wrote : free.2.sink = _ := truncates.writes (state.withRoom none) rfl
  have place := truncates.keeps (state.withRoom (some limit))
  refine ⟨by rw [wrote]; rfl, ?_⟩
  cases truncates.limited (state.withRoom none) limit rfl with
  | fits enough same =>
    refine ⟨fun _ => same, fun beyond => ?_⟩
    exact absurd enough (Nat.not_le_of_lt beyond)
  | stops passes refused =>
    refine ⟨fun enough => ?_, fun _ => ?_⟩
    · exact absurd enough (Nat.not_le_of_lt passes.lt_size)
    · exact ⟨_, passes, refused.blamed, refused.written, refused.bindings, place.2, place.1⟩

/-- A run that is stopped by its second print, inside of a block and between the two bytes of a
character. What is assigned behind that print is not assigned. -/
theorem interpret_truncates_inside :
    let program := (parse "\x7b var b = \"é\"; print b;\na = true; print b; a = b; \x7d").program
    let state : Interpreter Sink :=
      ⟨(Scopes.empty.create.define 0 "a" .nil).createIn 0, 1, .limited 0 .full⟩
    let held := interpret program (state.withRoom (some 4))
    let printings := Stmt.allPrintings program (state.withRoom none)
    4 < (Printing.output printings).size ∧
      held.2.sink.written.toList = [0xC3, 0xA9, 0x0A, 0xC3] ∧
      held.2.scopes.bound? 0 "a" = some (.bool true) ∧
      ∃ printing, Passes printings 4 printing ∧
        held.1 = .error ⟨.output "failed to write whole buffer", printing.keyword⟩ ∧
        printing.moment.scopes.bound? 0 "a" = some (.bool true) := by
  intro program state held printings
  have beyond : 4 < (Printing.output printings).size := by decide +kernel
  obtain ⟨printing, passes, blamed, written, bindings, -, -⟩ :=
    (interpret_truncates program state 4).2.2 beyond
  have assigned : held.2.scopes.bound? 0 "a" = some (.bool true) := by
    change (interpret program _).2.scopes.bound? 0 "a" = _
    rw [interpret_eq]
    decide +kernel
  refine ⟨beyond, ?_, assigned, printing, passes, blamed, ?_⟩
  · rw [written]
    decide +kernel
  · rw [← bindings 0 (by decide +kernel) "a"]
    exact assigned

end Interpreter

end BlockScript
