import BlockScript.Proofs.Run.Frame
import BlockScript.Proofs.Scope.Update

/-!
# What a block changes outside of itself

A name is assigned freely in a block if it is assigned where no declaration before it, in the same
list of statements or in a list around that, declares it.

## Main results

`Interpreter.interpret_block_spares`: the scopes that there were before a block bind the same names
after it, and only the owner of a name that is assigned freely may bind it to another value.

## Proof strategy

1. Inside of a block the chain leads through scopes that are newer than the block to those that
   were seen in front of it (`Interpreter.Within`).
2. An assignment to a name that one of the newer scopes binds ends there. Any other one ends at
   the scope that owned the name in front of the block, since none of those scopes has gained or
   lost a name (`Interpreter.Within.owner?_entry`).
3. A declaration binds its name in a newer scope for as long as that scope is seen, so what
   follows may assign one name more (`Run.Confined.bind`).
-/

namespace BlockScript

variable {W : Type}

namespace Interpreter

/-- Whether the scopes that there were in `entry` bind the same names, and what they bind is the
same unless the name is allowed and the scope its owner. -/
structure Spares (state entry : Interpreter W) (allowed : List String) : Prop where
  names : ∀ scope < entry.scopes.size, ∀ name,
    (state.scopes.bound? scope name).isSome = (entry.scopes.bound? scope name).isSome
  changed : ∀ scope < entry.scopes.size, ∀ name,
    state.scopes.bound? scope name ≠ entry.scopes.bound? scope name →
      name ∈ allowed ∧ entry.scopes.owner? entry.current name = some scope

/-- Whether a name may be assigned: it is allowed, or one of the newer scopes binds it. -/
def Permits (state : Interpreter W) (allowed : List String) (inner : List ScopeId)
    (name : String) : Prop :=
  name ∈ allowed ∨ state.Binds inner name

variable {entry state last : Interpreter W} {allowed : List String} {inner : List ScopeId}

theorem Permits.of_keeps {name : String} (within : state.Within entry inner)
    (kept : KeepsNames state last) (permits : state.Permits allowed inner name) :
    last.Permits allowed inner name :=
  permits.imp_right fun binds => binds.of_keeps within kept

theorem Permits.enterBlock {name : String} (permits : state.Permits allowed inner name) :
    state.enterBlock.Permits allowed (state.scopes.size :: inner) name :=
  permits.imp_right Binds.enterBlock

/-! ### What happens to the older scopes -/

theorem Spares.refl (state : Interpreter W) (allowed : List String) : state.Spares state allowed :=
  ⟨fun _ _ _ => rfl, fun _ _ _ changed => absurd rfl changed⟩

theorem Spares.congr {next : Interpreter W} (spares : state.Spares entry allowed)
    (same : ∀ scope < entry.scopes.size, ∀ name,
      next.scopes.bound? scope name = state.scopes.bound? scope name) :
    next.Spares entry allowed := by
  constructor
  · intro scope older name
    rw [same scope older, spares.names scope older]
  · intro scope older name
    rw [same scope older]
    exact spares.changed scope older name

/-- A newer scope may bind whatever it likes. -/
theorem Spares.define {scope : ScopeId} (spares : state.Spares entry allowed)
    (newer : entry.scopes.size ≤ scope) (name : String) (value : Value) :
    Spares { state with scopes := state.scopes.define scope name value } entry allowed := by
  refine spares.congr fun other older sought => ?_
  have apart : scope ≠ other := Nat.ne_of_gt (Nat.lt_of_lt_of_le older newer)
  rw [Scopes.bound?_define, if_neg fun same => apart same.1]

/-- If the owner of a name is one of the older scopes, it owned the name before any of the newer
scopes was made. -/
theorem Within.owner?_entry {owner : ScopeId} {name : String} (within : state.Within entry inner)
    (spares : state.Spares entry allowed)
    (found : state.scopes.owner? state.current name = some owner)
    (older : owner < entry.scopes.size) :
    entry.scopes.owner? entry.current name = some owner ∧
      ∀ scope ∈ inner, state.scopes.bound? scope name = none := by
  rw [Scopes.owner?, within.chain, List.find?_append] at found
  cases near : inner.find? (fun scope => (state.scopes.bound? scope name).isSome) with
  | some scope =>
    rw [near, Option.some_or, Option.some_inj] at found
    have newer := within.recent scope (List.mem_of_find?_eq_some near)
    exact absurd newer (found ▸ Nat.not_le_of_lt older)
  | none =>
    rw [near, Option.none_or, List.find?_eq_some_iff_append] at found
    obtain ⟨bound, nearer, further, chain, free⟩ := found
    refine ⟨?_, by simpa using near⟩
    rw [Scopes.owner?, List.find?_eq_some_iff_append]
    refine ⟨by rwa [← spares.names owner older], nearer, further, chain, fun scope member => ?_⟩
    -- What is not bound now was not bound then, by a scope that was there.
    by_cases there : scope < entry.scopes.size
    · rw [← spares.names scope there]
      exact free scope member
    · simpa using fun bound => there (Scopes.lt_size_of_bound? bound)

/-- An assignment that is permitted spares the older scopes. -/
theorem Spares.overwrite {owner : ScopeId} {name : String} (within : state.Within entry inner)
    (spares : state.Spares entry allowed) (permits : state.Permits allowed inner name)
    (found : state.scopes.owner? state.current name = some owner) (value : Value) :
    Spares { state with scopes := state.scopes.define owner name value } entry allowed := by
  -- If the owner was there in front of the block, the name must be an allowed one.
  by_cases older : owner < entry.scopes.size
  · obtain ⟨owned, free⟩ := within.owner?_entry spares found older
    have member : name ∈ allowed := by
      refine permits.resolve_right ?_
      rintro ⟨scope, member, bound⟩
      simp [free scope member] at bound
    have bound := (Scopes.owner?_eq_some_iff.mp found).1
    constructor
    · intro scope there sought
      rw [Scopes.isSome_bound?_overwrite bound, spares.names scope there]
    · intro scope there sought
      rw [Scopes.bound?_define]
      split
      next here =>
        obtain ⟨rfl, rfl, -⟩ := here
        exact fun _ => ⟨member, owned⟩
      next => exact spares.changed scope there sought
  · exact spares.define (Nat.le_of_not_lt older) name value

end Interpreter

/-! ### Computations in a block -/

namespace Run

open Interpreter

variable {α β : Type}

/-- Whether a computation in a block spares the older scopes, if the names `needs` may be
assigned. Without an error the name `gives` may be assigned afterwards. -/
structure Confined (needs : List String) (gives : Option String) (run : Run W α) : Prop where
  keeps : run.Respects KeepsNames
  spares : ∀ {state entry : Interpreter W} {allowed : List String} {inner : List ScopeId},
    state.Within entry inner → state.Spares entry allowed →
    (∀ name ∈ needs, state.Permits allowed inner name) →
    (run state).2.Spares entry allowed ∧
      ∀ value, (run state).1 = .ok value → ∀ name ∈ gives, (run state).2.Permits allowed inner name

variable {needs : List String} {gives : Option String} {run : Run W α}

theorem Confined.mono {more : List String} (confined : run.Confined needs gives)
    (subset : ∀ name ∈ needs, name ∈ more) : run.Confined more gives where
  keeps := confined.keeps
  spares within spares permits :=
    confined.spares within spares fun name member => permits name (subset name member)

theorem Confined.forget (confined : run.Confined needs gives) : run.Confined needs none where
  keeps := confined.keeps
  spares within spares permits := ⟨(confined.spares within spares permits).1, by simp⟩

/-- A computation that leaves the scopes as they are. -/
theorem Confined.of_same (keeps : run.Respects KeepsNames)
    (same : ∀ state, (run state).2.scopes = state.scopes) : run.Confined needs none where
  keeps := keeps
  spares {state _ _ _} _ spares _ := by
    refine ⟨spares.congr fun scope _ name => ?_, by simp⟩
    rw [same]

variable [Writer W]

theorem confined_pure (value : α) : (pure value : Run W α).Confined needs none :=
  .of_same (keepsNames.pure value) fun _ => rfl

theorem confined_lift (result : Except RuntimeError α) :
    (liftM result : Run W α).Confined needs none :=
  .of_same (keepsNames.lift result) fun _ => rfl

/-- What follows may assign what the first computation may assign, and the name that it gives. -/
theorem Confined.bind {between : Option String} {next : α → Run W β}
    (confined : run.Confined needs between) (after : List String)
    (confinedNext : ∀ value, (next value).Confined after gives)
    (enough : ∀ name ∈ after, name ∈ needs ∨ between = some name) :
    (run >>= next).Confined needs gives where
  keeps := keepsNames.bind confined.keeps fun value => (confinedNext value).keeps
  spares {state entry allowed inner} within spares permits := by
    have kept := confined.keeps state
    obtain ⟨spared, given⟩ := confined.spares within spares permits
    rw [bind_apply]
    revert kept spared given
    rcases run state with ⟨_ | value, middle⟩
    · exact fun _ spared _ => ⟨spared, by simp⟩
    · intro kept spared given
      refine (confinedNext value).spares (within.of_keeps kept) spared fun name member => ?_
      rcases enough name member with needed | isGiven
      · exact (permits name needed).of_keeps within kept
      · exact given value rfl name isGiven

theorem Confined.inBlock {body : Run W α} (confined : body.Confined needs gives) :
    (Run.inBlock body).Confined needs none where
  keeps := keepsNames.inBlock confined.keeps
  spares {state entry allowed inner} within spares permits := by
    have older := within.size_le
    -- The new scope binds nothing yet, so what may be assigned is the same inside.
    have entered : state.enterBlock.Spares entry allowed :=
      spares.congr fun scope _ name => bound?_enterBlock state scope name
    obtain ⟨spared, -⟩ := confined.spares within.enterBlock entered fun name member =>
      (permits name member).enterBlock
    refine ⟨spared.congr fun scope there name => ?_, by simp⟩
    exact bound?_leaveBlock (confined.keeps state.enterBlock).place
      (Nat.lt_of_lt_of_le there older) name

end Run

namespace Interpreter

open Run

variable [Writer W]

theorem confined_get (name : Token) : (get name : Run W Value).Confined [] none := by
  refine .of_same (keepsNames.get name) fun state => ?_
  unfold get
  split <;> rfl

theorem confined_print (keyword : Token) (value : Value) :
    (print keyword value : Run W Unit).Confined [] none := by
  refine .of_same (keepsNames.print keyword value) fun state => ?_
  unfold print
  split <;> rfl

theorem confined_define (name : String) (value : Value) :
    (define name value : Run W Unit).Confined [] (some name) where
  keeps := keepsNames.bindName name value
  spares {state _ _ _} within spares _ := by
    refine ⟨spares.define (within.recent _ within.current) name value, ?_⟩
    rintro _ _ _ ⟨⟩
    exact .inr (within.binds_define name value)

theorem confined_assign (name : Token) (value : Value) :
    (assign name value : Run W Unit).Confined [name.lexeme] none where
  keeps := keepsNames.assign name value
  spares {state _ _ _} within spares permits := by
    refine ⟨?_, by simp⟩
    unfold assign
    split
    next owner found =>
      exact spares.overwrite within (permits name.lexeme List.mem_cons_self) found value
    next => exact spares

end Interpreter

/-! ### Programs -/

open Run Interpreter

/-- What a program in a block may change are the names that it assigns freely. -/
theorem Run.confined_rules [Writer W] :
    ProgramRules (W := W) .assignment fun needs gives run => run.Confined needs gives where
  mono := Confined.mono
  forget := Confined.forget
  pure := confined_pure
  lift := confined_lift
  bind := Confined.bind
  inBlock := Confined.inBlock
  get := confined_get
  assign := confined_assign
  define := confined_define
  print := confined_print

/-! ### Main theorem -/

namespace Interpreter

/-- A block touches outer scopes through free assignments only. However it ends, every scope that
there was binds the same names as before, and has another value for a name only if the name is
assigned freely in the block and the scope owned it in front of the block. -/
theorem interpret_block_spares [Writer W] (body : List Stmt) (state : Interpreter W) :
    let last := (interpret [.block body] state).2
    ∀ scope < state.scopes.size, ∀ name,
      (last.scopes.bound? scope name).isSome = (state.scopes.bound? scope name).isSome ∧
      (last.scopes.bound? scope name ≠ state.scopes.bound? scope name →
        name ∈ Stmt.freeAll .assignment body ∧
          state.scopes.owner? state.current name = some scope) := by
  intro last scope present name
  have entered : state.enterBlock.Spares state (Stmt.freeAll .assignment body) :=
    (Spares.refl state _).congr fun other _ sought => bound?_enterBlock state other sought
  have confined := (Run.confined_rules (W := W)).execAll body
  obtain ⟨spares, -⟩ := confined.spares (within_enterBlock state) entered fun _ => .inl
  have place := (confined.keeps state.enterBlock).place
  have left : last.scopes.bound? scope name =
      (Stmt.execAll body state.enterBlock).2.scopes.bound? scope name := by
    change (interpret [.block body] state).2.scopes.bound? scope name = _
    rw [interpret_block]
    exact bound?_leaveBlock place present name
  rw [left]
  exact ⟨spares.names scope present name, spares.changed scope present name⟩

/-- A block that an unknown name stops in an inner block. The first assignment leaves the block;
the later ones are to names that it declares. -/
theorem interpret_block_spares_stopped :
    let body := (parse "a = true; var b; b = a; { var a; a = b; c; }").program
    let globals := (Scopes.empty.create.define 0 "a" .nil).define 0 "b" .nil
    let state : Interpreter Sink := ⟨globals.createIn 0, 1, .unlimited⟩
    let last := (interpret [.block body] state).2
    Stmt.freeAll .assignment body = ["a"] ∧
      last.scopes.bound? 0 "a" ≠ state.scopes.bound? 0 "a" ∧
      state.scopes.owner? 1 "a" = some 0 ∧
      last.scopes.bound? 0 "b" = state.scopes.bound? 0 "b" := by
  intro body globals state last
  have free : Stmt.freeAll .assignment body = ["a"] := by decide +kernel
  have changed : last.scopes.bound? 0 "a" ≠ state.scopes.bound? 0 "a" := by
    have run : last = (Run.inBlock (Stmt.execAll body) state).2 := by rw [← interpret_block]
    rw [run]
    decide +kernel
  have spares := interpret_block_spares body state 0 (by decide)
  refine ⟨free, changed, ((spares "a").2 changed).2, ?_⟩
  -- The name is not among those that are assigned freely.
  refine Decidable.byContradiction fun other => ?_
  have member := ((spares "b").2 other).1
  rw [free] at member
  exact absurd member (by decide)

end Interpreter

end BlockScript
