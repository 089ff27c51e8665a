import BlockScript.Syntax.Value
import Std.Data.TreeMap

/-!
# Scopes

A scope binds names to values and may be enclosed by other scopes. All scopes live in
one store and are known by their index in it, so a scope can be shared: whoever knows
its index sees every change. What encloses a scope is fixed when it is created. It is
kept as the whole list of the enclosing scopes, innermost first, so that looking a
name up is a search through a list that is already there.

A name means its binding in the nearest scope of the chain that has one, its `owner?`.
`define` binds a name in one scope, whether it is bound there or not; an assignment
defines a name in its owner and so never makes a new binding.
-/
namespace BlockScript

/-- The index of a scope in the store. -/
abbrev ScopeId := Nat

/-- The bindings of a scope and the scopes around it, innermost first. -/
structure Scope where
  bindings : Std.TreeMap String Value
  enclosing : List ScopeId

structure Scopes where
  all : Array Scope

namespace Scopes

def empty : Scopes := ⟨#[]⟩

/-- The number of scopes; also the index of the next one. -/
def size (scopes : Scopes) : Nat := scopes.all.size

/-- The scopes in which a name is looked up from `scope`, nearest first. -/
def chain (scopes : Scopes) (scope : ScopeId) : List ScopeId :=
  scope :: (scopes.all[scope]?.map Scope.enclosing).getD []

/-- The value that a scope itself binds to a name. -/
def bound? (scopes : Scopes) (scope : ScopeId) (name : String) : Option Value :=
  scopes.all[scope]?.bind (fun found => found.bindings[name]?)

/-- The nearest scope of the chain from `scope` that binds a name. -/
def owner? (scopes : Scopes) (scope : ScopeId) (name : String) : Option ScopeId :=
  (scopes.chain scope).find? (fun candidate => (scopes.bound? candidate name).isSome)

/-- The value of a name as seen from `scope`. -/
def get? (scopes : Scopes) (scope : ScopeId) (name : String) : Option Value :=
  (scopes.chain scope).findSome? (fun candidate => scopes.bound? candidate name)

/-- A new scope without bindings at the end of the store, enclosed by the scopes of the
given chain. -/
def push (scopes : Scopes) (enclosing : List ScopeId) : Scopes :=
  ⟨scopes.all.push ⟨∅, enclosing⟩⟩

/-- A new scope that nothing encloses. -/
def create (scopes : Scopes) : Scopes :=
  scopes.push []

def createIn (scopes : Scopes) (scope : ScopeId) : Scopes :=
  scopes.push (scopes.chain scope)

def pop (scopes : Scopes) : Scopes :=
  ⟨scopes.all.pop⟩

/-- Binds a name in one scope, in place of the binding that it may have there. -/
def define (scopes : Scopes) (scope : ScopeId) (name : String) (value : Value) : Scopes :=
  ⟨scopes.all.modify scope
    (fun found => { found with bindings := found.bindings.insert name value })⟩

/-! ### What each operation changes -/

@[simp] theorem size_push (scopes : Scopes) (enclosing : List ScopeId) :
    (scopes.push enclosing).size = scopes.size + 1 := by
  simp [push, size]

@[simp] theorem size_define (scopes : Scopes) (scope : ScopeId) (name : String) (value : Value) :
    (scopes.define scope name value).size = scopes.size := by
  simp [define, size]

/-- Defining a name changes no chain. -/
@[simp] theorem chain_define (scopes : Scopes) (scope other : ScopeId) (name : String)
    (value : Value) : (scopes.define scope name value).chain other = scopes.chain other := by
  simp only [chain, define, Array.getElem?_modify]
  split
  next same => cases scopes.all[other]? <;> rfl
  · rfl

/-- Defining a name binds it in the one scope, if there is such a scope, and leaves every
other binding as it is. -/
theorem bound?_define (scopes : Scopes) (scope other : ScopeId) (name sought : String)
    (value : Value) :
    (scopes.define scope name value).bound? other sought =
      if scope = other ∧ name = sought ∧ other < scopes.size then some value
      else scopes.bound? other sought := by
  simp only [bound?, define, size, Array.getElem?_modify]
  by_cases same : scope = other
  · subst same
    by_cases present : scope < scopes.all.size
    · by_cases named : name = sought
      · simp [present, named]
      · simp [present, named, Std.TreeMap.getElem?_insert]
    · simp [present]
  · simp [same]

/-- Only the scopes of the store bind names. -/
theorem bound?_of_size_le {scopes : Scopes} {scope : ScopeId} (absent : scopes.size ≤ scope)
    (name : String) : scopes.bound? scope name = none := by
  rw [bound?, Array.getElem?_eq_none absent]
  rfl

theorem lt_size_of_bound? {scopes : Scopes} {scope : ScopeId} {name : String}
    (bound : (scopes.bound? scope name).isSome = true) : scope < scopes.size := by
  refine Decidable.byContradiction fun absent => ?_
  simp [bound?_of_size_le (Nat.le_of_not_lt absent)] at bound

/-- A name has a value exactly where it has an owner: the value that the owner binds. -/
theorem get?_eq_bind_owner? (scopes : Scopes) (scope : ScopeId) (name : String) :
    scopes.get? scope name = (scopes.owner? scope name).bind (scopes.bound? · name) := by
  unfold get? owner?
  induction scopes.chain scope with
  | nil => rfl
  | cons first rest ih =>
    cases found : scopes.bound? first name with
    | none => simp [found, ih]
    | some value => simp [found]

/-- A name has an owner exactly where it has a value. -/
theorem isSome_owner? (scopes : Scopes) (scope : ScopeId) (name : String) :
    (scopes.owner? scope name).isSome = (scopes.get? scope name).isSome := by
  rw [get?_eq_bind_owner?]
  cases found : scopes.owner? scope name with
  | none => rfl
  | some owner =>
    have binds := List.find?_some found
    simpa using binds.symm

end Scopes
end BlockScript
