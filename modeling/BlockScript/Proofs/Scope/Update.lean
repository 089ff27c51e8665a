import BlockScript.Scope.Basic

/-!
# Changing what a name means

## Main results

`get?_define`: after a name has been bound in a scope, it has the new value wherever it can be
seen from that scope is reached, and what it meant before everywhere else.
`get?_overwrite`: an assignment binds a name in its owner, so it has the new value exactly where
it has that owner.

## Proof strategy

A scope is reached by a name if no nearer scope binds it. All is by induction on the chain in
which the name is looked up.
-/

namespace BlockScript.Scopes

/-- Whether looking a name up from `other` comes to `scope`: it is in the chain, and no nearer
scope of the chain binds the name. -/
def Reaches (scopes : Scopes) (other scope : ScopeId) (name : String) : Prop :=
  scope ∈ scopes.chain other ∧
    ∀ nearer ∈ (scopes.chain other).takeWhile (· ≠ scope), scopes.bound? nearer name = none

instance (scopes : Scopes) (other scope : ScopeId) (name : String) :
    Decidable (scopes.Reaches other scope name) :=
  inferInstanceAs (Decidable (_ ∧ _))

/-- The owner of a name is the scope that is reached and binds it. -/
theorem owner?_eq_some_iff {scopes : Scopes} {other scope : ScopeId} {name : String} :
    scopes.owner? other name = some scope ↔
      (scopes.bound? scope name).isSome = true ∧ scopes.Reaches other scope name := by
  unfold owner? Reaches
  induction scopes.chain other with
  | nil => simp
  | cons first rest ih =>
    by_cases same : first = scope
    · subst same
      cases bound : scopes.bound? first name with
      | none => simp [bound, ih]
      | some value => simp [bound]
    · cases bound : scopes.bound? first name with
      | none => simp [bound, ih, same, Ne.symm same]
      | some value => simp [bound, same]

theorem findSome?_define {scopes : Scopes} {scope : ScopeId} (present : scope < scopes.size)
    (chain : List ScopeId) (name : String) (value : Value) :
    chain.findSome? ((scopes.define scope name value).bound? · name) =
      if scope ∈ chain ∧ ∀ nearer ∈ chain.takeWhile (· ≠ scope), scopes.bound? nearer name = none
      then some value else chain.findSome? (scopes.bound? · name) := by
  induction chain with
  | nil => rfl
  | cons first rest ih =>
    rw [List.findSome?_cons, List.findSome?_cons, ih, bound?_define]
    by_cases same : first = scope
    · subst same
      simp [present]
    · cases bound : scopes.bound? first name with
      | none => simp [bound, same, Ne.symm same]
      | some found => simp [bound, same, Ne.symm same]

/-- Binding a name changes what it means where the scope is reached, and nothing else. -/
theorem get?_define {scopes : Scopes} {scope : ScopeId} (present : scope < scopes.size)
    (other : ScopeId) (name sought : String) (value : Value) :
    (scopes.define scope name value).get? other sought =
      if sought = name ∧ scopes.Reaches other scope name then some value
      else scopes.get? other sought := by
  by_cases same : sought = name
  · subst same
    rw [get?, chain_define, findSome?_define present]
    simp [Reaches, get?]
  · simp [get?, bound?_define, same, Ne.symm same]

/-- A definition takes no name away. -/
theorem isSome_bound?_define {scopes : Scopes} {other : ScopeId} {sought : String}
    (bound : (scopes.bound? other sought).isSome = true) (scope : ScopeId) (name : String)
    (value : Value) :
    ((scopes.define scope name value).bound? other sought).isSome = true := by
  rw [bound?_define]
  split
  · rfl
  · exact bound

theorem isSome_bound?_overwrite {scopes : Scopes} {owner : ScopeId} {name : String}
    (bound : (scopes.bound? owner name).isSome = true) (value : Value) (other : ScopeId)
    (sought : String) :
    ((scopes.define owner name value).bound? other sought).isSome =
      (scopes.bound? other sought).isSome := by
  rw [bound?_define]
  split
  next here => rw [← here.1, ← here.2.1, bound, Option.isSome_some]
  next => rfl

/-- Overwriting a binding changes what the name means where it is the nearest one, and nothing
else. -/
theorem get?_overwrite {scopes : Scopes} {scope owner : ScopeId} {name : String}
    (found : scopes.owner? scope name = some owner) (other : ScopeId) (sought : String)
    (value : Value) :
    (scopes.define owner name value).get? other sought =
      if sought = name ∧ scopes.owner? other name = scopes.owner? scope name then some value
      else scopes.get? other sought := by
  have bound := (owner?_eq_some_iff.mp found).1
  simp only [get?_define (lt_size_of_bound? bound), found, owner?_eq_some_iff, bound, true_and]

end BlockScript.Scopes
