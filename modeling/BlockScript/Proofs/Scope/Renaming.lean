import BlockScript.Proofs.Scope.Links
import Mathlib.Data.List.Find

/-!
# Another spelling of a name

Two stores may differ in how the newer scopes spell one name, and in nothing else.

## Main results

`Respelled.owner?`: in its spelling, a name has the same owner in both stores, if it is not found
past the newer scopes.
`Respelled.define`, `Respelled.push`, `Respelled.pop`: what changes both stores alike keeps it so.
`respelled_define`, `Respelled.pop_eq`: it begins when the newest scope binds one name in place of
the other, and ends when that scope is forgotten.

## Proof strategy

The newer scopes do not bind the new spelling in the first store, so names that differ are spelled
differently in the second one. The older scopes are the same in both, so there a name must keep its
spelling.
-/

namespace BlockScript

/-- The spelling of a name, if `old` is spelled `new`. -/
def respell (old new name : String) : String :=
  if name = old then new else name

section

variable {old new name : String}

theorem respell_self (old new : String) : respell old new old = new := if_pos rfl

theorem respell_of_ne (other : name ≠ old) : respell old new name = name := if_neg other

/-- The new spelling stands for no other name. -/
theorem respell_inj {sought : String} (other : name ≠ new) (other' : sought ≠ new) :
    respell old new name = respell old new sought ↔ name = sought := by
  unfold respell
  split <;> split <;> simp_all [eq_comm]

end

namespace Scopes

/-- Whether the scopes from `home` on bind in the second store to the new spelling of a name what
they bind to the name in the first one. All older scopes are the same. -/
structure Respelled (old new : String) (home : ScopeId) (scopes others : Scopes) : Prop where
  links : others.links = scopes.links
  older : ∀ scope < home, others.all[scope]? = scopes.all[scope]?
  newer : ∀ scope, home ≤ scope → ∀ name, name ≠ new →
    others.bound? scope (respell old new name) = scopes.bound? scope name

namespace Respelled

variable {old new name : String} {home scope : ScopeId} {scopes others : Scopes}

theorem size_eq (respelled : scopes.Respelled old new home others) :
    others.size = scopes.size := by
  rw [← length_links, respelled.links, length_links]

/-- An older scope spells every name as before. -/
theorem bound?_eq (respelled : scopes.Respelled old new home others) (other : name ≠ new)
    (spelled : home ≤ scope ∨ name ≠ old) :
    others.bound? scope (respell old new name) = scopes.bound? scope name := by
  by_cases newer : home ≤ scope
  · exact respelled.newer scope newer name other
  · rw [respell_of_ne (spelled.resolve_left newer), bound?, bound?,
      respelled.older scope (Nat.lt_of_not_le newer)]

theorem push (respelled : scopes.Respelled old new home others) (enclosing : List ScopeId) :
    (scopes.push enclosing).Respelled old new home (others.push enclosing) where
  links := by rw [links_push, links_push, respelled.links]
  older scope older := by
    have same : others.all.size = scopes.all.size := respelled.size_eq
    simp only [Scopes.push, Array.getElem?_push, same, respelled.older scope older]
  newer scope newer name other := by
    rw [bound?_push, bound?_push, respelled.newer scope newer name other]

theorem pop (respelled : scopes.Respelled old new home others) :
    scopes.pop.Respelled old new home others.pop where
  links := by rw [links_pop, links_pop, respelled.links]
  older scope older := by
    have same : others.all.size = scopes.all.size := respelled.size_eq
    simp only [Scopes.pop, Array.getElem?_pop, same, respelled.older scope older]
  newer scope newer name other := by
    rw [bound?_pop, bound?_pop, respelled.size_eq, respelled.newer scope newer name other]

/-- A name is bound in both stores, each time in its spelling. -/
theorem define (respelled : scopes.Respelled old new home others) (other : name ≠ new)
    (spelled : home ≤ scope ∨ name ≠ old) (value : Value) :
    (scopes.define scope name value).Respelled old new home
      (others.define scope (respell old new name) value) where
  links := by rw [links_define, links_define, respelled.links]
  older sought older := by
    simp only [Scopes.define, Array.getElem?_modify, respelled.older sought older]
    split
    next same =>
      -- In an older scope only a name is bound that both stores spell alike.
      have kept : name ≠ old := spelled.resolve_left (Nat.not_le_of_lt (same ▸ older))
      rw [respell_of_ne kept]
    next => rfl
  newer sought newer name' other' := by
    rw [bound?_define, bound?_define, respelled.size_eq, respelled.newer sought newer name' other']
    simp only [respell_inj other other']

/-- A name is found in the same scope, whatever its spelling: the old one is not sought past the
newer scopes. -/
theorem owner?_eq {current : ScopeId} {inner outer : List ScopeId}
    (respelled : scopes.Respelled old new home others)
    (chain : scopes.chain current = inner ++ outer) (recent : ∀ scope ∈ inner, home ≤ scope)
    (bound : ∃ scope ∈ inner, (scopes.bound? scope old).isSome = true) (other : name ≠ new) :
    others.owner? current (respell old new name) = scopes.owner? current name ∧
      ∀ owner, scopes.owner? current name = some owner → home ≤ owner ∨ name ≠ old := by
  unfold owner?
  rw [chain_congr respelled.links, chain]
  by_cases same : name = old
  · subst same
    -- The search ends among the newer scopes, so the older ones need not spell the name alike.
    have near : inner.find? (fun scope => (others.bound? scope (respell name new name)).isSome) =
        inner.find? (fun scope => (scopes.bound? scope name).isSome) :=
      List.find?_congr fun scope member => by
        rw [respelled.newer scope (recent scope member) name other]
    obtain ⟨owner, found⟩ : ∃ owner,
        inner.find? (fun scope => (scopes.bound? scope name).isSome) = some owner :=
      Option.isSome_iff_exists.mp (List.find?_isSome.mpr bound)
    rw [List.find?_append, List.find?_append, near, found]
    refine ⟨rfl, ?_⟩
    rintro _ ⟨⟩
    exact .inl (recent owner (List.mem_of_find?_eq_some found))
  · refine ⟨List.find?_congr fun scope _ => ?_, fun _ _ => .inr same⟩
    rw [respelled.bound?_eq other (.inr same)]

/-- When the newest scope has gone, nothing is spelled differently. -/
theorem pop_eq (respelled : scopes.Respelled old new home others)
    (last : scopes.size = home + 1) : others.pop = scopes.pop := by
  have size : scopes.all.size = home + 1 := last
  have size' : others.all.size = home + 1 := respelled.size_eq.trans last
  refine congrArg Scopes.mk (Array.ext_getElem? fun scope => ?_)
  rw [Array.getElem?_pop, Array.getElem?_pop, size, size']
  split
  next older => exact respelled.older scope older
  next => rfl

end Respelled

/-- The newest scope binds the one name or the other. -/
theorem respelled_define {scopes : Scopes} {home : ScopeId} (last : scopes.size = home + 1)
    (old new : String) (value : Value) :
    (scopes.define home old value).Respelled old new home (scopes.define home new value) where
  links := by rw [links_define, links_define]
  older scope older := by
    simp only [define, Array.getElem?_modify, if_neg (Nat.ne_of_gt older)]
  newer scope newer name other := by
    rw [bound?_define, bound?_define, last]
    -- No scope is newer than `home`, which binds the name in either spelling.
    by_cases same : name = old
    · subst same
      rw [respell_self]
      by_cases newest : scope = home
      · simp [newest]
      · have absent : scopes.size ≤ scope := last ▸ Nat.lt_of_le_of_ne newer (Ne.symm newest)
        simp [Ne.symm newest, bound?_of_size_le absent]
    · rw [respell_of_ne same]
      simp [Ne.symm same, Ne.symm other]

end Scopes

end BlockScript
