import BlockScript.Proofs.Scope.Links

/-!
# Scopes as a block sees them

A view tells what can be seen along a chain: the bindings of every block that has been
entered, and outside of all blocks the values of a few names only. How the outer scopes are
arranged, and what else they bind, does not show.

## Main results

`View.Shows.get`, `View.Shows.define`, `View.Shows.assign`: reading and changing names along a
chain does to its view what the view says.
`View.Shows.enter`, `View.Shows.leave`: entering and leaving a block puts bindings on the view
and takes them off.

## Proof strategy

All by recursion on the view. The scope of a block is in its chain only once, so a change to
it is not seen further out.
-/

namespace BlockScript

abbrev Bindings := String → Option Value

def Bindings.insert (bindings : Bindings) (name : String) (value : Value) : Bindings :=
  fun sought => if name = sought then some value else bindings sought

/-- What is known along a chain of scopes, the innermost block first. -/
inductive View where
  /-- No block is around. The bindings count for the known names. -/
  | outside (known : String → Prop) (bindings : Bindings)
  | block (bindings : Bindings) (around : View)

namespace View

def get : View → String → Option Value
  | outside _ bindings, name => bindings name
  | block bindings around, name => (bindings name).or (around.get name)

/-- Whether the view tells what a name means. -/
def Covers : View → String → Prop
  | outside known _, name => known name
  | block bindings around, name => (bindings name).isSome = true ∨ around.Covers name

/-- The view once a name has been bound innermost. -/
def define : View → String → Value → View
  | outside known bindings, name, value =>
    outside (fun sought => name = sought ∨ known sought) (bindings.insert name value)
  | block bindings around, name, value => block (bindings.insert name value) around

/-- The view once the innermost binding of a name has been overwritten. -/
def assign : View → String → Value → View
  | outside known bindings, name, value => outside known (bindings.insert name value)
  | block bindings around, name, value =>
    if (bindings name).isSome then block (bindings.insert name value) around
    else block bindings (around.assign name value)

/-- Whether a view has the same blocks as another one and tells of all its names. -/
inductive Grows : View → View → Prop where
  | outside {known known' : String → Prop} {bindings bindings' : Bindings}
      (grows : ∀ name, known name → known' name) :
      Grows (outside known bindings) (outside known' bindings')
  | block {bindings bindings' : Bindings} {around around' : View}
      (grows : ∀ name, (bindings name).isSome = true → (bindings' name).isSome = true)
      (grown : Grows around around') : Grows (block bindings around) (block bindings' around')

inductive Shows (scopes : Scopes) : View → List ScopeId → Prop where
  | outside {known : String → Prop} {bindings : Bindings} {chain : List ScopeId}
      (present : ∀ scope ∈ chain, scope < scopes.size)
      (seen : ∀ name, known name → chain.findSome? (scopes.bound? · name) = bindings name) :
      Shows scopes (outside known bindings) chain
  | block {bindings : Bindings} {around : View} {scope : ScopeId} {chain : List ScopeId}
      (present : scope < scopes.size) (once : scope ∉ chain)
      (seen : ∀ name, scopes.bound? scope name = bindings name)
      (further : Shows scopes around chain) : Shows scopes (block bindings around) (scope :: chain)

/-! ### Growing views -/

theorem Grows.refl (view : View) : view.Grows view := by
  induction view with
  | outside known bindings => exact .outside fun _ => id
  | block bindings around ih => exact .block (fun _ => id) ih

theorem Grows.trans {first second third : View} (grows : first.Grows second)
    (grows' : second.Grows third) : first.Grows third := by
  induction grows generalizing third with
  | outside known =>
    cases grows' with
    | outside known' => exact .outside fun name member => known' name (known name member)
  | block bound _ ih =>
    cases grows' with
    | block bound' further =>
      exact .block (fun name found => bound' name (bound name found)) (ih further)

theorem Grows.covers {view next : View} (grows : view.Grows next) {name : String}
    (covers : view.Covers name) : next.Covers name := by
  induction grows with
  | outside known => exact known name covers
  | block bound _ ih => exact covers.imp (bound name) ih

theorem isSome_insert {bindings : Bindings} {name sought : String} {value : Value}
    (bound : (bindings sought).isSome = true) :
    (bindings.insert name value sought).isSome = true := by
  unfold Bindings.insert
  split
  · rfl
  · exact bound

theorem grows_define (view : View) (name : String) (value : Value) :
    view.Grows (view.define name value) := by
  cases view with
  | outside known bindings => exact .outside fun _ => .inr
  | block bindings around => exact .block (fun _ => isSome_insert) (.refl around)

theorem covers_define (view : View) (name : String) (value : Value) :
    (view.define name value).Covers name := by
  cases view with
  | outside known bindings => exact .inl rfl
  | block bindings around => exact .inl (by simp [Bindings.insert])

theorem grows_assign (view : View) (name : String) (value : Value) :
    view.Grows (view.assign name value) := by
  induction view with
  | outside known bindings => exact .outside fun _ => id
  | block bindings around ih =>
    unfold assign
    split
    · exact .block (fun _ => isSome_insert) (.refl around)
    · exact .block (fun _ => id) ih

/-! ### Looking a name up -/

namespace Shows

variable {scopes others : Scopes} {view : View} {chain : List ScopeId}

theorem present (shows : Shows scopes view chain) : ∀ scope ∈ chain, scope < scopes.size := by
  induction shows with
  | outside present seen => exact present
  | block present once seen further ih =>
    intro scope member
    rcases List.mem_cons.mp member with rfl | further
    · exact present
    · exact ih scope further

theorem get (shows : Shows scopes view chain) {name : String} (covers : view.Covers name) :
    chain.findSome? (scopes.bound? · name) = view.get name := by
  induction shows with
  | outside present seen => exact seen name covers
  | @block bindings around scope chain present once seen further ih =>
    rw [List.findSome?_cons, seen, View.get]
    cases bound : bindings name with
    | some value => rfl
    | none =>
      have covered : around.Covers name := covers.resolve_left (by simp [bound])
      simpa using ih covered

/-! ### Changing a binding -/

theorem findSome?_congr (same : ∀ scope ∈ chain, ∀ name,
    others.bound? scope name = scopes.bound? scope name) (name : String) :
    chain.findSome? (others.bound? · name) = chain.findSome? (scopes.bound? · name) := by
  induction chain with
  | nil => rfl
  | cons scope rest ih =>
    rw [List.findSome?_cons, List.findSome?_cons, same scope List.mem_cons_self,
      ih fun other member => same other (List.mem_cons_of_mem _ member)]

/-- Only the bindings of the chain's own scopes show. -/
theorem congr (shows : Shows scopes view chain)
    (present : ∀ scope ∈ chain, scope < others.size)
    (same : ∀ scope ∈ chain, ∀ name, others.bound? scope name = scopes.bound? scope name) :
    Shows others view chain := by
  induction shows with
  | outside _ seen =>
    refine .outside present fun name known => ?_
    rw [findSome?_congr same, seen name known]
  | block _ once seen _ ih =>
    refine .block (present _ List.mem_cons_self) once ?_ ?_
    · intro name
      rw [same _ List.mem_cons_self, seen]
    · exact ih (fun scope member => present scope (List.mem_cons_of_mem _ member))
        (fun scope member => same scope (List.mem_cons_of_mem _ member))

theorem define_elsewhere (shows : Shows scopes view chain) {scope : ScopeId} (apart : scope ∉ chain)
    (name : String) (value : Value) : Shows (scopes.define scope name value) view chain := by
  apply shows.congr
  · simpa using shows.present
  · intro other member sought
    have distinct : scope ≠ other := by
      rintro rfl
      exact apart member
    simp [Scopes.bound?_define, distinct]

theorem insert {bindings : Bindings} {around : View} {scope : ScopeId}
    (shows : Shows scopes (.block bindings around) (scope :: chain)) (name : String)
    (value : Value) :
    Shows (scopes.define scope name value) (.block (bindings.insert name value) around)
      (scope :: chain) := by
  cases shows with
  | block present once seen further =>
    refine .block (by simpa using present) once (fun sought => ?_)
      (further.define_elsewhere once name value)
    rw [Scopes.bound?_define, seen]
    by_cases same : name = sought <;> simp [same, present, Bindings.insert]

theorem define {scope : ScopeId} (shows : Shows scopes view (scope :: chain)) (name : String)
    (value : Value) :
    Shows (scopes.define scope name value) (view.define name value) (scope :: chain) := by
  cases view with
  | block bindings around => exact shows.insert name value
  | outside known bindings =>
    cases shows with
    | outside present seen =>
      refine .outside (by simpa using present) fun sought member => ?_
      by_cases same : name = sought
      · subst same
        have bound := present scope List.mem_cons_self
        simp [Scopes.bound?_define, bound, Bindings.insert]
      · have before := seen sought (member.resolve_left same)
        simpa [Scopes.bound?_define, same, Bindings.insert] using before

/-- The scope that owns a name binds it to the value that it is overwritten with. -/
theorem findSome?_define_owner {owner : ScopeId} {name : String} (value : Value)
    (present : ∀ scope ∈ chain, scope < scopes.size)
    (found : chain.find? (fun scope => (scopes.bound? scope name).isSome) = some owner) :
    chain.findSome? ((scopes.define owner name value).bound? · name) = some value := by
  induction chain with
  | nil => cases found
  | cons scope rest ih =>
    rw [List.find?_cons] at found
    rw [List.findSome?_cons, Scopes.bound?_define]
    cases bound : scopes.bound? scope name with
    | some old =>
      obtain rfl : scope = owner := by simpa [bound] using found
      simp [present scope List.mem_cons_self]
    | none =>
      have later : rest.find? (fun scope => (scopes.bound? scope name).isSome) = some owner := by
        simpa [bound] using found
      have distinct : owner ≠ scope := by
        rintro rfl
        simpa [bound] using List.find?_some later
      have presentRest : ∀ scope ∈ rest, scope < scopes.size :=
        fun scope member => present scope (List.mem_cons_of_mem _ member)
      simpa [distinct] using ih presentRest later

theorem assign (shows : Shows scopes view chain) {owner : ScopeId} {name : String} (value : Value)
    (found : chain.find? (fun scope => (scopes.bound? scope name).isSome) = some owner) :
    Shows (scopes.define owner name value) (view.assign name value) chain := by
  induction shows with
  | outside present seen =>
    refine .outside (by simpa using present) fun sought known => ?_
    by_cases same : name = sought
    · subst same
      simpa [Bindings.insert] using findSome?_define_owner value present found
    · simpa [Scopes.bound?_define, same, Bindings.insert] using seen sought known
  | @block bindings around scope chain present once seen further ih =>
    rw [List.find?_cons, seen] at found
    unfold View.assign
    by_cases bound : (bindings name).isSome = true
    · obtain rfl : scope = owner := by simpa [bound] using found
      rw [if_pos bound]
      exact (Shows.block present once seen further).insert name value
    · rw [if_neg bound]
      have later : chain.find? (fun scope => (scopes.bound? scope name).isSome) = some owner := by
        simpa [bound] using found
      have distinct : owner ≠ scope := by
        rintro rfl
        exact once (List.mem_of_find?_eq_some later)
      refine .block (by simpa using present) once (fun sought => ?_) (ih later)
      simp [Scopes.bound?_define, distinct, seen]

/-! ### Entering and leaving a block -/

theorem enter (shows : Shows scopes view chain) (enclosing : List ScopeId) :
    Shows (scopes.push enclosing) (.block (fun _ => none) view) (scopes.size :: chain) := by
  refine .block (by simp) ?_ ?_ ?_
  · intro member
    exact Nat.lt_irrefl _ (shows.present _ member)
  · intro name
    rw [Scopes.bound?_push, Scopes.bound?_of_size_le (Nat.le_refl _)]
  · apply shows.congr
    · intro scope member
      rw [Scopes.size_push]
      exact Nat.lt_succ_of_lt (shows.present scope member)
    · intro scope member name
      exact Scopes.bound?_push scopes enclosing scope name

theorem leave {bindings : Bindings} {around : View} {scope : ScopeId}
    (shows : Shows scopes (.block bindings around) (scope :: chain))
    (last : scopes.size = scope + 1) : Shows scopes.pop around chain := by
  cases shows with
  | block _ once _ further =>
    have older : ∀ other ∈ chain, other < scope := by
      intro other member
      have present := further.present other member
      rw [last] at present
      refine Nat.lt_of_le_of_ne (Nat.le_of_lt_succ present) ?_
      rintro rfl
      exact once member
    apply further.congr
    · intro other member
      rw [Scopes.size_pop, last]
      exact older other member
    · intro other member name
      rw [Scopes.bound?_pop, last, if_pos (Nat.succ_lt_succ (older other member))]

end Shows
end View
end BlockScript
