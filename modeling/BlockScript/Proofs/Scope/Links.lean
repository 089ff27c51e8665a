import BlockScript.Scope.Basic

/-!
# Following scopes outwards

A scope knows all scopes around it. Here the store is looked at as if every scope knew only
the next one, its link.

## Main results

`Linked.climb?_eq`: following the links from a scope visits the scopes of its chain, in their
order, and ends.
`Linked.search_iff`: a search for a name that goes outwards link by link ends where the name
has its owner.
`Linked.push`: a new scope inside of none, or of one that is there, keeps it so.

## Proof strategy

A scope is made inside of one that is there already, so a link leads to an older scope, and
the scopes around a scope are the chain of the scope next to it. This is kept by whatever
only changes bindings, and all else follows by induction on the chain.
-/

namespace BlockScript.Scopes

/-- What encloses each scope of the store, the oldest scope first. -/
def links (scopes : Scopes) : List (List ScopeId) :=
  scopes.all.toList.map Scope.enclosing

/-- The scope next to a scope, outwards. -/
def parent? (scopes : Scopes) (scope : ScopeId) : Option ScopeId :=
  (scopes.links[scope]?.getD []).head?

/-- The scope that is reached from a scope by following a number of links, if there are as
many. -/
def climb? (scopes : Scopes) : Nat → ScopeId → Option ScopeId
  | 0, scope => some scope
  | steps + 1, scope => (scopes.parent? scope).bind (scopes.climb? steps)

/-- How a search for a name goes outwards from a scope, and the scope where it finds the name,
if it finds it. -/
inductive Search (scopes : Scopes) (name : String) : ScopeId → Option ScopeId → Prop where
  | here {scope : ScopeId} (bound : (scopes.bound? scope name).isSome = true) :
      Search scopes name scope (some scope)
  | nowhere {scope : ScopeId} (free : scopes.bound? scope name = none)
      (last : scopes.parent? scope = none) : Search scopes name scope none
  | outward {scope outer : ScopeId} {found : Option ScopeId}
      (free : scopes.bound? scope name = none) (next : scopes.parent? scope = some outer)
      (search : Search scopes name outer found) : Search scopes name scope found

/-- Every scope is enclosed by nothing, or by an older scope and whatever encloses that. -/
def Linked (scopes : Scopes) : Prop :=
  ∀ (scope : ScopeId) (enclosing : List ScopeId), scopes.links[scope]? = some enclosing →
    enclosing = [] ∨ ∃ outer < scope, enclosing = scopes.chain outer

/-! ### Links -/

@[simp] theorem length_links (scopes : Scopes) : scopes.links.length = scopes.size := by
  simp [links, size]

theorem chain_eq (scopes : Scopes) (scope : ScopeId) :
    scopes.chain scope = scope :: scopes.links[scope]?.getD [] := by
  simp [chain, links]

theorem map_parent? (scopes : Scopes) :
    (List.range scopes.size).map scopes.parent? = scopes.links.map List.head? := by
  apply List.ext_getElem
  · simp
  · intro scope _ present
    rw [List.length_map] at present
    simp [parent?, List.getElem?_eq_getElem present]

theorem chain_congr {scopes others : Scopes} (same : others.links = scopes.links)
    (scope : ScopeId) : others.chain scope = scopes.chain scope := by
  rw [chain_eq, chain_eq, same]

@[simp] theorem links_define (scopes : Scopes) (scope : ScopeId) (name : String) (value : Value) :
    (scopes.define scope name value).links = scopes.links := by
  apply List.ext_getElem?
  intro index
  simp only [links, define, List.getElem?_map, Array.getElem?_toList, Array.getElem?_modify]
  split
  · cases scopes.all[index]? <;> rfl
  · rfl

@[simp] theorem links_push (scopes : Scopes) (enclosing : List ScopeId) :
    (scopes.push enclosing).links = scopes.links ++ [enclosing] := by
  simp [links, push]

@[simp] theorem links_pop (scopes : Scopes) : scopes.pop.links = scopes.links.dropLast := by
  simp [links, pop]

theorem chain_push {scopes : Scopes} {scope : ScopeId} (present : scope < scopes.size)
    (enclosing : List ScopeId) : (scopes.push enclosing).chain scope = scopes.chain scope := by
  rw [chain_eq, chain_eq, links_push, List.getElem?_append_left (by simpa using present)]

theorem chain_push_size (scopes : Scopes) (enclosing : List ScopeId) :
    (scopes.push enclosing).chain scopes.size = scopes.size :: enclosing := by
  rw [chain_eq, links_push, ← length_links, List.getElem?_concat_length]
  rfl

/-! ### Bindings of the scopes at the end -/

/-- A new scope binds nothing. -/
theorem bound?_push (scopes : Scopes) (enclosing : List ScopeId) (scope : ScopeId)
    (name : String) : (scopes.push enclosing).bound? scope name = scopes.bound? scope name := by
  rw [bound?, bound?, push, Array.getElem?_push]
  split
  next last => simp [last]
  · rfl

theorem size_pop (scopes : Scopes) : scopes.pop.size = scopes.size - 1 := by
  simp [pop, size]

/-- The last scope takes its bindings with it. -/
theorem bound?_pop (scopes : Scopes) (scope : ScopeId) (name : String) :
    scopes.pop.bound? scope name =
      if scope + 1 < scopes.size then scopes.bound? scope name else none := by
  by_cases kept : scope + 1 < scopes.size
  · have small : scope < scopes.all.size - 1 := Nat.lt_sub_of_add_lt kept
    rw [bound?, pop, Array.getElem?_pop, if_pos small, if_pos kept, bound?]
  · have large : ¬ scope < scopes.all.size - 1 := fun small => kept (Nat.add_lt_of_lt_sub small)
    rw [bound?, pop, Array.getElem?_pop, if_neg large, if_neg kept, Option.bind_none]

/-! ### Linked stores -/

theorem linked_empty : empty.Linked := by
  intro scope enclosing found
  simp [links, empty] at found

theorem Linked.of_links_eq {scopes others : Scopes} (linked : scopes.Linked)
    (same : others.links = scopes.links) : others.Linked := by
  intro scope enclosing found
  rw [same] at found
  simp only [chain_congr same]
  exact linked scope enclosing found

theorem Linked.push {scopes : Scopes} (linked : scopes.Linked) {enclosing : List ScopeId}
    (outside : enclosing = [] ∨ ∃ outer < scopes.size, enclosing = scopes.chain outer) :
    (scopes.push enclosing).Linked := by
  intro scope around found
  rw [links_push, List.getElem?_append] at found
  split at found
  next old =>
    rw [length_links] at old
    rcases linked scope around found with alone | ⟨outer, older, same⟩
    · exact .inl alone
    · exact .inr ⟨outer, older, by rw [chain_push (Nat.lt_trans older old), same]⟩
  next new =>
    -- The last scope is the new one, and its surroundings were there before.
    rw [length_links] at new found
    obtain ⟨last, rfl⟩ : scope ≤ scopes.size ∧ enclosing = around := by
      simpa [List.getElem?_singleton, Nat.sub_eq_zero_iff_le] using found
    obtain rfl := Nat.le_antisymm last (Nat.le_of_not_lt new)
    rcases outside with alone | ⟨outer, older, same⟩
    · exact .inl alone
    · exact .inr ⟨outer, older, by rw [chain_push older, same]⟩

theorem Linked.create {scopes : Scopes} (linked : scopes.Linked) : scopes.create.Linked :=
  linked.push (.inl rfl)

theorem Linked.le_of_mem_chain {scopes : Scopes} (linked : scopes.Linked) {scope outer : ScopeId}
    (member : outer ∈ scopes.chain scope) : outer ≤ scope := by
  induction scope using Nat.strongRecOn with
  | ind scope ih =>
    rw [chain_eq] at member
    rcases List.mem_cons.mp member with rfl | around
    · exact Nat.le_refl outer
    · cases found : scopes.links[scope]? with
      | none => simp [found] at around
      | some enclosing =>
        simp only [found, Option.getD_some] at around
        rcases linked scope enclosing found with rfl | ⟨next, older, rfl⟩
        · cases around
        · exact Nat.le_trans (ih next older around) (Nat.le_of_lt older)

/-- The chain of a scope goes on with the chain of the next scope. -/
theorem Linked.chain_eq_cons {scopes : Scopes} (linked : scopes.Linked) (scope : ScopeId) :
    scopes.chain scope = scope :: ((scopes.parent? scope).map scopes.chain).getD [] := by
  rw [chain_eq, parent?]
  cases found : scopes.links[scope]? with
  | none => rfl
  | some enclosing =>
    rcases linked scope enclosing found with rfl | ⟨outer, older, rfl⟩
    · rfl
    · simp [chain]

/-- A link leads to an older scope. -/
theorem Linked.parent?_lt {scopes : Scopes} (linked : scopes.Linked) {scope outer : ScopeId}
    (next : scopes.parent? scope = some outer) : outer < scope := by
  rw [parent?] at next
  cases found : scopes.links[scope]? with
  | none => simp [found] at next
  | some enclosing =>
    rcases linked scope enclosing found with rfl | ⟨other, older, rfl⟩
    · simp [found] at next
    · obtain rfl : other = outer := by simpa [found, chain] using next
      exact older

/-- Following links visits the scopes of the chain. -/
theorem Linked.climb?_eq {scopes : Scopes} (linked : scopes.Linked) (steps : Nat)
    (scope : ScopeId) : scopes.climb? steps scope = (scopes.chain scope)[steps]? := by
  induction steps generalizing scope with
  | zero => rw [linked.chain_eq_cons]; rfl
  | succ steps ih =>
    rw [climb?, linked.chain_eq_cons, List.getElem?_cons_succ]
    cases scopes.parent? scope with
    | none => rfl
    | some outer => exact ih outer

/-- A scope that binds a name owns it; for any other scope the owner is that of the next
scope. -/
theorem Linked.owner?_eq {scopes : Scopes} (linked : scopes.Linked) (scope : ScopeId)
    (name : String) :
    scopes.owner? scope name =
      if (scopes.bound? scope name).isSome then some scope
      else (scopes.parent? scope).bind (scopes.owner? · name) := by
  rw [owner?, linked.chain_eq_cons, List.find?_cons]
  cases scopes.bound? scope name with
  | some value => rfl
  | none => cases scopes.parent? scope <;> rfl

/-- A search that follows the links ends, and it ends at the owner of the name. -/
theorem Linked.search_iff {scopes : Scopes} (linked : scopes.Linked) (name : String)
    (scope : ScopeId) (found : Option ScopeId) :
    scopes.Search name scope found ↔ scopes.owner? scope name = found := by
  constructor
  · intro search
    induction search with
    | here bound => rw [linked.owner?_eq, if_pos bound]
    | nowhere free last =>
      rw [linked.owner?_eq, if_neg (by simp [free]), last]
      rfl
    | outward free next _ ih =>
      rw [linked.owner?_eq, if_neg (by simp [free]), next]
      exact ih
  · rintro rfl
    induction scope using Nat.strongRecOn with
    | ind scope ih =>
      rw [linked.owner?_eq]
      by_cases bound : (scopes.bound? scope name).isSome = true
      · rw [if_pos bound]
        exact .here bound
      · rw [if_neg bound]
        have free : scopes.bound? scope name = none := by simpa using bound
        cases next : scopes.parent? scope with
        | none => exact .nowhere free next
        | some outer => exact .outward free next (ih outer (linked.parent?_lt next))

end BlockScript.Scopes
