import BlockScript.Proofs.Run.Frame

/-!
# What evaluating an expression changes

## Main results

`Expr.eval_silent`: an expression is evaluated without regard to the sink, which stays as it is.
`Interpreter.evaluate_overwrites`: scopes stay where they are and bind the names that they bound,
and a binding may only get another value if an assignment of the expression finds it first.

## Proof strategy

1. The only change that evaluating can make is to give the owner of an assigned name another
   value for it (`Interpreter.Overwrites`).
2. Such changes take no name away and add none, so every name keeps its owner, and what is the
   owner later on was the owner from the start (`Interpreter.Overwrites.owner?_eq`).
3. So the changes of one evaluation after another are again such changes, and an expression makes
   no others (`Run.ExprRules`). How the evaluation ends does not matter.
-/

namespace BlockScript

variable {W : Type}

/-! ### The sink -/

namespace Run

variable {α β : Type}

/-- Whether a computation does the same with every sink and leaves the sink as it is. -/
def Silent (run : Run W α) : Prop :=
  ∀ state sink, run { state with sink } = ((run state).1, { (run state).2 with sink })

theorem silent_pure (value : α) : (pure value : Run W α).Silent :=
  fun _ _ => rfl

theorem silent_lift (result : Except RuntimeError α) : (liftM result : Run W α).Silent :=
  fun _ _ => rfl

theorem Silent.bind {first : Run W α} {second : α → Run W β} (silent : first.Silent)
    (silentNext : ∀ value, (second value).Silent) : (first >>= second).Silent := by
  intro state sink
  rw [bind_apply, bind_apply, silent state sink]
  rcases first state with ⟨_ | value, between⟩
  · rfl
  · exact silentNext value between sink

theorem Silent.sink_eq {run : Run W α} (silent : run.Silent) (state : Interpreter W) :
    (run state).2.sink = state.sink := by
  have same := silent state state.sink
  exact congrArg (fun outcome => outcome.2.sink) same

end Run

namespace Interpreter

open Run

theorem silent_get (name : Token) : (get name : Run W Value).Silent := by
  intro state sink
  simp only [get]
  cases state.scopes.get? state.current name.lexeme <;> rfl

theorem silent_assign (name : Token) (value : Value) : (assign name value : Run W Unit).Silent := by
  intro state sink
  simp only [assign]
  cases state.scopes.owner? state.current name.lexeme <;> rfl

theorem silent_define (name : String) (value : Value) : (define name value : Run W Unit).Silent :=
  fun _ _ => rfl

end Interpreter

open Run Interpreter in
theorem Run.silent_rules {mention : Mention} :
    ExprRules (W := W) mention fun _ run => run.Silent where
  mono silent _ := silent
  pure := silent_pure
  lift := silent_lift
  bind silent silentNext := silent.bind silentNext
  get := silent_get
  assign := silent_assign

theorem Expr.eval_silent (expr : Expr) : (expr.eval : Run W Value).Silent :=
  (Run.silent_rules : Run.ExprRules .assignment fun _ run => run.Silent).eval expr

/-! ### Bindings -/

namespace Interpreter

/-- Whether nothing but values has changed in the scopes, and a value only where one of the given
names was found from the current scope. -/
structure Overwrites (names : List String) (state last : Interpreter W) : Prop where
  place : SamePlace state last
  bound : ∀ scope name,
    (last.scopes.bound? scope name).isSome = (state.scopes.bound? scope name).isSome
  changed : ∀ scope name, last.scopes.bound? scope name ≠ state.scopes.bound? scope name →
    name ∈ names ∧ state.scopes.owner? state.current name = some scope

namespace Overwrites

variable {names : List String} {state between last : Interpreter W}

theorem refl (names : List String) (state : Interpreter W) : Overwrites names state state where
  place := .refl state
  bound _ _ := rfl
  changed _ _ changed := absurd rfl changed

/-- The owner of a name depends on which names are bound, not on their values. -/
theorem owner?_eq (overwrites : Overwrites names state last) (name : String) :
    last.scopes.owner? last.current name = state.scopes.owner? state.current name := by
  simp only [Scopes.owner?, Scopes.chain_congr overwrites.place.2, overwrites.place.1,
    overwrites.bound]

theorem trans (before : Overwrites names state between)
    (after : Overwrites names between last) : Overwrites names state last := by
  constructor
  · exact before.place.trans after.place
  · intro scope name
    rw [after.bound, before.bound]
  · intro scope name changed
    -- One of the two has changed the value, and both see the same owner.
    by_cases later : last.scopes.bound? scope name = between.scopes.bound? scope name
    · apply before.changed
      rwa [← later]
    · rw [← before.owner?_eq]
      exact after.changed scope name later

/-- To overwrite the binding that is found is such a change. -/
theorem define {owner : ScopeId} {name : String} (member : name ∈ names)
    (found : state.scopes.owner? state.current name = some owner) (value : Value) :
    Overwrites names state { state with scopes := state.scopes.define owner name value } := by
  have binds := (Scopes.owner?_eq_some_iff.mp found).1
  constructor
  · exact samePlace_define state owner name value
  · exact fun scope sought => Scopes.isSome_bound?_overwrite binds value scope sought
  · intro scope sought
    rw [Scopes.bound?_define]
    split
    next here =>
      obtain ⟨rfl, rfl, -⟩ := here
      exact fun _ => ⟨member, found⟩
    next => exact fun changed => absurd rfl changed

theorem unshadowed (overwrites : Overwrites names state last) {scope : ScopeId} {name : String}
    (changed : last.scopes.bound? scope name ≠ state.scopes.bound? scope name) :
    state.scopes.Reaches state.current scope name :=
  (Scopes.owner?_eq_some_iff.mp (overwrites.changed scope name changed).2).2

end Overwrites

theorem overwrites_get (names : List String) (name : Token) :
    (get name : Run W Value).Respects (Overwrites names) := by
  intro state
  unfold get
  split <;> exact .refl names state

theorem overwrites_assign {names : List String} {name : Token} (member : name.lexeme ∈ names)
    (value : Value) : (assign name value : Run W Unit).Respects (Overwrites names) := by
  intro state
  unfold assign
  split
  next owner found => exact .define member found value
  next => exact .refl names state

end Interpreter

open Interpreter in
/-- Whether or not it comes to an error, an expression overwrites bindings of names that it
assigns. -/
theorem Run.overwrites_rules :
    ExprRules (W := W) .assignment fun needs run =>
      ∀ names, (∀ name ∈ needs, name ∈ names) → run.Respects (Overwrites names) where
  mono overwrites subset names assigned :=
    overwrites names fun name member => assigned name (subset name member)
  pure _ names _ := .refl names
  lift _ names _ := .refl names
  bind overwrites overwritesNext names assigned :=
    (overwrites names assigned).bind (fun value => overwritesNext value names assigned) .trans
  get name names _ := overwrites_get names name
  assign name value names assigned := overwrites_assign (assigned name.lexeme (by simp)) value

theorem Expr.eval_overwrites (expr : Expr) :
    (expr.eval : Run W Value).Respects (Interpreter.Overwrites (expr.mentions .assignment)) :=
  Run.overwrites_rules.eval expr _ fun _ member => member

/-! ### Main theorem -/

namespace Interpreter

/-- Evaluating an expression is confined, whether it ends with a value or an error. Nothing is
written, and the current scope and what encloses each scope stay the same. No scope gains or loses
a name. A binding has another value only if its name is assigned in the expression and the binding
was the nearest one of that name: what is not on the chain of the current scope stays as it is, and
so does what a nearer binding of the same name hides. -/
theorem evaluate_overwrites (expr : Expr) (state : Interpreter W) :
    let last := (state.evaluate (.eval expr) []).2
    let chain := state.scopes.chain state.current
    last.sink = state.sink ∧
    last.current = state.current ∧
    last.scopes.links = state.scopes.links ∧
    (∀ scope name,
      (last.scopes.bound? scope name).isSome = (state.scopes.bound? scope name).isSome) ∧
    (∀ scope name, last.scopes.bound? scope name ≠ state.scopes.bound? scope name →
      name ∈ expr.mentions .assignment ∧ state.scopes.owner? state.current name = some scope) ∧
    (∀ scope ∉ chain, ∀ name,
      last.scopes.bound? scope name = state.scopes.bound? scope name) ∧
    ∀ scope, ∀ nearer ∈ chain.takeWhile (· ≠ scope), ∀ name,
      (state.scopes.bound? nearer name).isSome = true →
        last.scopes.bound? scope name = state.scopes.bound? scope name := by
  intro last chain
  have ends : last = (expr.eval state).2 := by
    rw [← evaluate_eq]
  have overwrites : Overwrites (expr.mentions .assignment) state last := by
    rw [ends]
    exact expr.eval_overwrites state
  refine ⟨?_, overwrites.place.1, overwrites.place.2, overwrites.bound, overwrites.changed, ?_, ?_⟩
  · rw [ends]
    exact expr.eval_silent.sink_eq state
  · intro scope off name
    refine Decidable.byContradiction fun changed => ?_
    exact off (overwrites.unshadowed changed).1
  · intro scope nearer between name hides
    refine Decidable.byContradiction fun changed => ?_
    have free := (overwrites.unshadowed changed).2 nearer between
    simp [free] at hides

/-- An addition that fails after both assignments on its left have been made. Of the three
variables with one name only the nearest has changed; one is hidden, and one is in another
scope. -/
theorem evaluate_overwrites_hidden :
    let name (lexeme : String) : Token := ⟨.identifier, lexeme, none, 1⟩
    let plus : Token := ⟨.symbol .plus, "+", none, 1⟩
    let expr : Expr := .binary
      (.assign (name "a") (.assign (name "b") (.literal (.bool true)))) plus (.literal .nil)
    let globals := (Scopes.empty.create.define 0 "a" .nil).define 0 "b" .nil
    let inner := ((globals.createIn 0).define 1 "a" .nil).createIn 0
    let state : Interpreter Sink := ⟨inner.define 2 "a" .nil, 1, .unlimited⟩
    let outcome := state.evaluate (.eval expr) []
    outcome.1.isOk = false ∧
      outcome.2.scopes.bound? 1 "a" = some (.bool true) ∧
      outcome.2.scopes.bound? 0 "b" = some (.bool true) ∧
      state.scopes.owner? 1 "b" = some 0 ∧
      outcome.2.scopes.bound? 0 "a" = some .nil ∧
      outcome.2.scopes.bound? 2 "a" = some .nil := by
  intro name plus expr globals inner state outcome
  obtain ⟨-, -, -, -, changed, off, hidden⟩ := evaluate_overwrites expr state
  have outcomeEq : outcome = expr.eval state := evaluate_eq expr state
  have given : outcome.2.scopes.bound? 0 "b" = some (.bool true) := by
    rw [outcomeEq]
    decide +kernel
  have other : outcome.2.scopes.bound? 0 "b" ≠ state.scopes.bound? 0 "b" := by
    rw [given]
    decide +kernel
  refine ⟨?_, ?_, given, (changed 0 "b" other).2, ?_, ?_⟩
  · rw [outcomeEq]
    decide +kernel
  · rw [outcomeEq]
    decide +kernel
  · have kept := hidden 0 1 (by decide +kernel) "a" (by decide +kernel)
    exact kept.trans (by decide +kernel)
  · have kept := off 2 (by decide +kernel) "a"
    exact kept.trans (by decide +kernel)

end Interpreter

end BlockScript
