import BlockScript.Run.Evaluation

/-!
# Executing deep statements

Like expressions, statements are executed by a loop that keeps in a list what remains to
be done: statements, and the ends of the blocks that have been entered. After an error
only the ends of the blocks are still honoured.

Main statement: `perform_exec`, by which the loop does what the statement means and then
goes on with its list; hence `perform_execAll`. Proof strategy: both hold for every list,
by induction on the statement together with the lists of statements in it.
-/
namespace BlockScript

/-- Something that remains to be done. -/
inductive Work where
  | statement (stmt : Stmt)
  | body (stmts : List Stmt)
  /-- The end of a block that was entered from `outer`. -/
  | leave (outer : ScopeId)

def Work.weight : Work → Nat
  | statement stmt => 2 * stmt.size
  | body stmts => 2 * Stmt.sizeAll stmts
  | leave _ => 1

variable {W : Type}

namespace Interpreter

/-- Leaves every block that is still open when an error stops the run. -/
def unwind (state : Interpreter W) : List Work → Interpreter W
  | [] => state
  | .leave outer :: rest => unwind (state.leaveBlock outer) rest
  | .statement _ :: rest => unwind state rest
  | .body _ :: rest => unwind state rest

variable [Writer W]

/-- Does all the work, the first first, up to the first error. -/
def perform (state : Interpreter W) (work : List Work) : Except RuntimeError Unit × Interpreter W :=
  match work with
  | [] => (.ok (), state)
  | .leave outer :: rest => perform (state.leaveBlock outer) rest
  | .body [] :: rest => perform state rest
  | .body (first :: later) :: rest => perform state (.statement first :: .body later :: rest)
  | .statement stmt :: rest =>
    match stmt with
    -- The end of the block goes under its body, so it is reached whatever the body adds.
    | .block body => perform state.enterBlock (.body body :: .leave state.current :: rest)
    | .expression value =>
      match evaluate state (.eval value) [] with
      | (.ok _, state) => perform state rest
      | (.error error, state) => (.error error, state.unwind rest)
    | .ifThen condition consequent =>
      match evaluate state (.eval condition) [] with
      | (.ok chosen, state) =>
        if chosen.isTruthy then perform state (.statement consequent :: rest)
        else perform state rest
      | (.error error, state) => (.error error, state.unwind rest)
    | .ifElse condition consequent alternative =>
      match evaluate state (.eval condition) [] with
      | (.ok chosen, state) =>
        if chosen.isTruthy then perform state (.statement consequent :: rest)
        else perform state (.statement alternative :: rest)
      | (.error error, state) => (.error error, state.unwind rest)
    | .print keyword value =>
      match evaluate state (.eval value) [] with
      | (.ok value, state) =>
        match Interpreter.print keyword value state with
        | (.ok _, state) => perform state rest
        | (.error error, state) => (.error error, state.unwind rest)
      | (.error error, state) => (.error error, state.unwind rest)
    | .var name none => perform (state.withBinding name.lexeme .nil) rest
    | .var name (some initializer) =>
      match evaluate state (.eval initializer) [] with
      | (.ok value, state) => perform (state.withBinding name.lexeme value) rest
      | (.error error, state) => (.error error, state.unwind rest)
termination_by Worklist.total Work.weight work
decreasing_by
  all_goals
    simp only [Worklist.total, Work.weight, Stmt.size, Stmt.sizeAll]
    omega

/-- Goes on with the rest of the work after a statement, or leaves it after an error. -/
def resume (outcome : Except RuntimeError Unit × Interpreter W) (rest : List Work) :
    Except RuntimeError Unit × Interpreter W :=
  match outcome with
  | (.ok _, state) => perform state rest
  | (.error error, state) => (.error error, state.unwind rest)

mutual

/-- A statement is executed as it means. -/
theorem perform_exec (stmt : Stmt) (state : Interpreter W) (rest : List Work) :
    perform state (.statement stmt :: rest) = resume (stmt.exec state) rest := by
  cases stmt with
  | block body =>
    rw [perform, perform_execAll body, Stmt.exec]
    simp only [Run.inBlock]
    rcases Stmt.execAll body state.enterBlock with ⟨_ | _, last⟩
    · rfl
    · simp only [resume, perform]
  | expression value =>
    rw [perform, evaluate_eq, Stmt.exec, Run.bind_apply]
    rcases value.eval state with ⟨_ | _, state⟩ <;> rfl
  | ifThen condition consequent =>
    rw [perform, evaluate_eq, Stmt.exec, Run.bind_apply]
    rcases condition.eval state with ⟨_ | chosen, state⟩
    · rfl
    · cases holds : chosen.isTruthy with
      | true => simpa [holds] using perform_exec consequent state rest
      | false => simp [holds, resume, Run.pure_apply]
  | ifElse condition consequent alternative =>
    rw [perform, evaluate_eq, Stmt.exec, Run.bind_apply]
    rcases condition.eval state with ⟨_ | chosen, state⟩
    · rfl
    · cases holds : chosen.isTruthy with
      | true => simpa [holds] using perform_exec consequent state rest
      | false => simpa [holds] using perform_exec alternative state rest
  | print keyword value =>
    rw [perform, evaluate_eq, Stmt.exec, Run.bind_apply]
    rcases value.eval state with ⟨_ | found, state⟩
    · rfl
    · simp only
      rcases Interpreter.print keyword found state with ⟨_ | _, state⟩ <;> rfl
  | var name initializer =>
    cases initializer with
    | none =>
      rw [perform, Stmt.exec]
      rfl
    | some initializer =>
      rw [perform, evaluate_eq, Stmt.exec, Run.bind_apply]
      rcases initializer.eval state with ⟨_ | _, state⟩ <;> rfl

/-- Statements are executed as they mean, one after the other. -/
theorem perform_execAll (stmts : List Stmt) (state : Interpreter W) (rest : List Work) :
    perform state (.body stmts :: rest) = resume (Stmt.execAll stmts state) rest := by
  cases stmts with
  | nil =>
    rw [perform, Stmt.execAll]
    rfl
  | cons first later =>
    rw [perform, perform_exec first, Stmt.execAll, Run.bind_apply]
    rcases first.exec state with ⟨_ | _, state⟩
    · rfl
    · exact perform_execAll later state rest

end

/-- Executes statements in the current scope, up to the first error. -/
def interpret (stmts : List Stmt) : Run W Unit := fun state =>
  perform state [.body stmts]

/-- Executes statements with `scope` as the current scope. -/
def executeIn (scope : ScopeId) (stmts : List Stmt) : Run W Unit :=
  Run.within scope (interpret stmts)

/-- The loop executes statements as they mean. -/
theorem interpret_eq (stmts : List Stmt) : (interpret stmts : Run W Unit) = Stmt.execAll stmts := by
  funext state
  rw [interpret, perform_execAll]
  rcases Stmt.execAll stmts state with ⟨_ | _, last⟩
  · rfl
  · simp only [resume, perform]

/-- A program that is a block runs the statements of the block in a scope of their own. -/
theorem interpret_block (body : List Stmt) :
    (interpret [.block body] : Run W Unit) = Run.inBlock (Stmt.execAll body) := by
  funext state
  rw [interpret_eq, Stmt.execAll, Run.bind_apply, Stmt.exec]
  rcases Run.inBlock (Stmt.execAll body) state with ⟨_ | _, last⟩ <;> rfl

end Interpreter
end BlockScript
