import BlockScript.Run.Error
import BlockScript.Run.Sink
import BlockScript.Scope.Basic

/-!
# The state of a run

An interpreter holds the scopes, the scope that is current and the writer that takes the
output. A run is a computation over it that may end with a runtime error; what it has
changed by then stays changed.
-/
namespace BlockScript

/-- Everything that a running program can see or change. -/
structure Interpreter (W : Type) where
  scopes : Scopes
  current : ScopeId
  sink : W

/-- A computation that changes an interpreter and may fail. -/
abbrev Run (W : Type) := ExceptT RuntimeError (StateM (Interpreter W))

variable {W : Type}

namespace Interpreter

/-- An interpreter with a single empty scope, which is the current one. -/
def new (sink : W) : Interpreter W :=
  ⟨Scopes.empty.create, 0, sink⟩

def get (name : Token) : Run W Value := fun state =>
  match state.scopes.get? state.current name.lexeme with
  | some value => (.ok value, state)
  | none => (.error (.undefined name), state)

/-- Changes the value of a name that has one. -/
def assign (name : Token) (value : Value) : Run W Unit := fun state =>
  match state.scopes.owner? state.current name.lexeme with
  | some owner =>
    (.ok (), { state with scopes := state.scopes.define owner name.lexeme value })
  | none => (.error (.undefined name), state)

/-- The state after a name has been bound in the current scope. -/
def withBinding (state : Interpreter W) (name : String) (value : Value) : Interpreter W :=
  { state with scopes := state.scopes.define state.current name value }

def define (name : String) (value : Value) : Run W Unit := fun state =>
  (.ok (), state.withBinding name value)

/-- Prints a value on a line of its own. A write that fails is blamed on `keyword`. -/
def print [Writer W] (keyword : Token) (value : Value) : Run W Unit := fun state =>
  match Writer.write state.sink (value.text ++ "\n").toUTF8 with
  | (.ok _, sink) => (.ok (), { state with sink })
  | (.error reason, sink) => (.error ⟨.output reason, keyword⟩, { state with sink })

/-- Makes a new scope inside of the current one and enters it. -/
def enterBlock (state : Interpreter W) : Interpreter W :=
  { state with scopes := state.scopes.createIn state.current, current := state.scopes.size }

/-- Forgets the scope made last and goes back to `outer`. -/
def leaveBlock (outer : ScopeId) (state : Interpreter W) : Interpreter W :=
  { state with scopes := state.scopes.pop, current := outer }

end Interpreter

namespace Run

variable {α β : Type}

/-- Runs a computation in a new scope inside of the current one. The scope that was
current is current again afterwards, also after an error. -/
def inBlock (body : Run W α) : Run W α := fun state =>
  let (result, last) := body state.enterBlock
  (result, last.leaveBlock state.current)

/-- Runs a computation with `scope` as the current scope. The scope that was current is
current again afterwards, also after an error. -/
def within (scope : ScopeId) (body : Run W α) : Run W α := fun state =>
  let (result, last) := body { state with current := scope }
  (result, { last with current := state.current })

/-! ### Running a computation from a state -/

theorem pure_apply (value : α) (state : Interpreter W) :
    (pure value : Run W α) state = (.ok value, state) := rfl

theorem lift_apply (result : Except RuntimeError α) (state : Interpreter W) :
    (liftM result : Run W α) state = (result, state) := rfl

/-- The second computation runs from where the first has come, unless that failed. -/
theorem bind_apply (first : Run W α) (second : α → Run W β) (state : Interpreter W) :
    (first >>= second) state =
      match first state with
      | (.ok value, state) => second value state
      | (.error error, state) => (.error error, state) := by
  change (match first state with
    | (result, state) => ExceptT.bindCont second result state) = _
  cases first state with
  | mk result state => cases result <;> rfl

end Run
end BlockScript
