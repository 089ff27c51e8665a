import BlockScript.Proofs.Run.Rules
import BlockScript.Proofs.Scope.Links
import BlockScript.Proofs.Scope.Update
import BlockScript.Session

/-!
# What a run leaves in place

## Main results

`Stmt.execAll_respects`: a relation between states that binding a name, writing and leaving a
block respect is respected by a program, whatever it does and however it ends.
`Stmt.execAll_keepsPlace`: the scope that was current is current again after a program, and the
store has the scopes that it had, each enclosed as before.
`Interpreter.keepsNames`: no scope loses a name.
`Interpreter.continues`: what has been written stays written.

## Proof strategy

A computation that is put together from computations that respect a relation respects it too, so
programs do (`Run.ProgramRules`). A block is entered with one scope more, which is the last one
when the block is left.
-/

namespace BlockScript

variable {W : Type}

/-- Whether the scopes that can be seen from the current one are all in the store. -/
def Interpreter.InStore (state : Interpreter W) : Prop :=
  ∀ scope ∈ state.scopes.chain state.current, scope < state.scopes.size

instance (state : Interpreter W) : Decidable state.InStore :=
  inferInstanceAs (Decidable (∀ scope ∈ _, _))

/-- Leaving a block takes away the scope that was put behind all others when it was entered. -/
theorem Interpreter.links_leaveBlock {state last : Interpreter W}
    (same : last.scopes.links = state.enterBlock.scopes.links) :
    (last.leaveBlock state.current).scopes.links = state.scopes.links := by
  calc last.scopes.pop.links
      = (state.scopes.createIn state.current).links.dropLast := by
        rw [Scopes.links_pop, same]
        rfl
    _ = state.scopes.links := by simp [Scopes.createIn]

namespace Run

variable {α β : Type} {related : Interpreter W → Interpreter W → Prop}

/-- Whether a relation between states holds over everything that the operations of a program do
to a state. -/
structure Frame [Writer W] (related : Interpreter W → Interpreter W → Prop) : Prop where
  refl : ∀ state, related state state
  trans : ∀ {first second third}, related first second → related second third →
    related first third
  define : ∀ state scope name value,
    related state { state with scopes := state.scopes.define scope name value }
  write : ∀ state bytes, related state { state with sink := (Writer.write state.sink bytes).2 }
  leaveBlock : ∀ {state last}, related state.enterBlock last →
    related state (last.leaveBlock state.current)

/-- Whether the state after a computation is always related to the state before it. -/
def Respects (related : Interpreter W → Interpreter W → Prop) (run : Run W α) : Prop :=
  ∀ state, related state (run state).2

/-- Two computations in a row respect a transitive relation if both of them do, also if the first
one fails. -/
theorem Respects.bind {first : Run W α} {second : α → Run W β} (respects : first.Respects related)
    (respectsNext : ∀ value, (second value).Respects related)
    (trans : ∀ {first second third}, related first second → related second third →
      related first third) : (first >>= second).Respects related := by
  intro state
  have before := respects state
  rw [bind_apply]
  revert before
  rcases first state with ⟨_ | value, between⟩
  · exact id
  · exact fun before => trans before (respectsNext value between)

namespace Frame

variable [Writer W] (frame : Frame related)
include frame

theorem pure (value : α) : (Pure.pure value : Run W α).Respects related :=
  fun state => frame.refl state

theorem lift (result : Except RuntimeError α) : (liftM result : Run W α).Respects related :=
  fun state => frame.refl state

theorem bind {first : Run W α} {second : α → Run W β} (respects : first.Respects related)
    (respectsNext : ∀ value, (second value).Respects related) :
    (first >>= second).Respects related :=
  Respects.bind respects respectsNext frame.trans

theorem inBlock {body : Run W α} (respects : body.Respects related) :
    (Run.inBlock body).Respects related :=
  fun state => frame.leaveBlock (respects state.enterBlock)

theorem get (name : Token) : (Interpreter.get name).Respects related := by
  intro state
  unfold Interpreter.get
  split <;> exact frame.refl state

theorem assign (name : Token) (value : Value) :
    (Interpreter.assign name value).Respects related := by
  intro state
  unfold Interpreter.assign
  split
  · exact frame.define state _ _ _
  · exact frame.refl state

theorem bindName (name : String) (value : Value) :
    (Interpreter.define name value).Respects related :=
  fun state => frame.define state state.current name value

theorem print (keyword : Token) (value : Value) :
    (Interpreter.print keyword value).Respects related := by
  intro state
  have written := frame.write state (value.text ++ "\n").toUTF8
  unfold Interpreter.print
  split
  next taken => rwa [taken] at written
  next refused => rwa [refused] at written

/-- Whatever names there are, what they are used for is respected. -/
theorem rules : ProgramRules .any fun _ _ run => run.Respects related where
  mono respects _ := respects
  forget respects := respects
  pure := frame.pure
  lift := frame.lift
  bind respects _ respectsNext _ := frame.bind respects respectsNext
  inBlock := frame.inBlock
  get := frame.get
  assign := frame.assign
  define := frame.bindName
  print := frame.print

end Frame
end Run

/-! ### Programs -/

section

variable [Writer W] {related : Interpreter W → Interpreter W → Prop} (frame : Run.Frame related)
include frame

theorem Expr.eval_respects (expr : Expr) : expr.eval.Respects related :=
  frame.rules.exprRules.eval expr

theorem Stmt.exec_respects (stmt : Stmt) : stmt.exec.Respects related :=
  frame.rules.exec stmt

/-- What binding a name, writing and leaving a block respect, a program respects, also if an
error stops it inside of blocks. -/
theorem Stmt.execAll_respects (stmts : List Stmt) : (execAll stmts).Respects related :=
  frame.rules.execAll stmts

/-- So does the run of a text in a session. -/
theorem Session.run_respects (text : String) (session : Session W) :
    related session (session.run text).2 := by
  unfold run
  simp only
  split
  · have respects := Stmt.execAll_respects frame (parse text).program session
    unfold execute
    rw [Interpreter.interpret_eq]
    revert respects
    rcases Stmt.execAll (parse text).program session with ⟨_ | _, last⟩ <;> exact id
  · exact frame.refl session

end

/-! ### Scopes -/

namespace Interpreter

/-- Whether the current scope is the same and no scope is enclosed in another way. -/
def SamePlace (state last : Interpreter W) : Prop :=
  last.current = state.current ∧ last.scopes.links = state.scopes.links

theorem SamePlace.refl (state : Interpreter W) : SamePlace state state :=
  ⟨rfl, rfl⟩

theorem SamePlace.trans {state between last : Interpreter W} (before : SamePlace state between)
    (after : SamePlace between last) : SamePlace state last :=
  ⟨after.1.trans before.1, after.2.trans before.2⟩

theorem samePlace_define (state : Interpreter W) (scope : ScopeId) (name : String) (value : Value) :
    SamePlace state { state with scopes := state.scopes.define scope name value } :=
  ⟨rfl, Scopes.links_define _ _ _ _⟩

theorem samePlace [Writer W] : Run.Frame (SamePlace (W := W)) where
  refl := .refl
  trans := .trans
  define := samePlace_define
  write _ _ := ⟨rfl, rfl⟩
  leaveBlock same := ⟨rfl, links_leaveBlock same.2⟩

end Interpreter

/-- Whether a computation ends in the scope where it began, with the scopes that there were,
and nothing but bindings changed in them. -/
def Run.KeepsPlace {α : Type} (run : Run W α) : Prop :=
  ∀ state, (run state).2.current = state.current ∧
    (run state).2.scopes.links = state.scopes.links

theorem Run.KeepsPlace.within {α : Type} {body : Run W α} (keeps : body.KeepsPlace)
    (scope : ScopeId) : (Run.within scope body).KeepsPlace :=
  fun state => ⟨rfl, (keeps { state with current := scope }).2⟩

section

variable [Writer W]

theorem Interpreter.keepsPlace_get (name : Token) : (get name : Run W Value).KeepsPlace :=
  samePlace.get name

theorem Interpreter.keepsPlace_assign (name : Token) (value : Value) :
    (assign name value : Run W Unit).KeepsPlace :=
  samePlace.assign name value

theorem Interpreter.keepsPlace_define (name : String) (value : Value) :
    (define name value : Run W Unit).KeepsPlace :=
  samePlace.bindName name value

theorem Expr.eval_keepsPlace (expr : Expr) : (expr.eval : Run W Value).KeepsPlace :=
  expr.eval_respects Interpreter.samePlace

/-- A program keeps its place, also if an error stops it inside of blocks. -/
theorem Stmt.execAll_keepsPlace (stmts : List Stmt) :
    (execAll stmts : Run W Unit).KeepsPlace :=
  execAll_respects Interpreter.samePlace stmts

end

/-! ### Names -/

namespace Interpreter

theorem size_enterBlock (state : Interpreter W) :
    state.enterBlock.scopes.size = state.scopes.size + 1 :=
  Scopes.size_push _ _

theorem chain_enterBlock (state : Interpreter W) :
    state.enterBlock.scopes.chain state.enterBlock.current =
      state.scopes.size :: state.scopes.chain state.current :=
  Scopes.chain_push_size state.scopes _

theorem SamePlace.size_eq {state last : Interpreter W} (same : SamePlace state last) :
    last.scopes.size = state.scopes.size := by
  rw [← Scopes.length_links, same.2, Scopes.length_links]

/-- A block has added one scope, for as long as it is not left. -/
theorem SamePlace.size_inside {state last : Interpreter W}
    (same : SamePlace state.enterBlock last) :
    last.scopes.size = state.scopes.size + 1 :=
  same.size_eq.trans (size_enterBlock state)

theorem bound?_enterBlock (state : Interpreter W) (scope : ScopeId) (name : String) :
    state.enterBlock.scopes.bound? scope name = state.scopes.bound? scope name :=
  Scopes.bound?_push state.scopes _ scope name

/-- The scope of the block takes only its own bindings away. -/
theorem bound?_leaveBlock {state last : Interpreter W} (same : SamePlace state.enterBlock last)
    {scope : ScopeId} (present : scope < state.scopes.size) (name : String) :
    (last.leaveBlock state.current).scopes.bound? scope name = last.scopes.bound? scope name := by
  change last.scopes.pop.bound? scope name = _
  rw [Scopes.bound?_pop, same.size_inside, if_pos (Nat.succ_lt_succ present)]

/-- Whether the place is the same and no scope has lost a name. -/
structure KeepsNames (state last : Interpreter W) : Prop where
  place : SamePlace state last
  names : ∀ scope < state.scopes.size, ∀ name,
    (state.scopes.bound? scope name).isSome = true → (last.scopes.bound? scope name).isSome = true

theorem keepsNames [Writer W] : Run.Frame (KeepsNames (W := W)) where
  refl state := ⟨.refl state, fun _ _ _ => id⟩
  trans before after :=
    ⟨before.place.trans after.place, fun scope present name bound =>
      after.names scope (before.place.size_eq ▸ present) name
        (before.names scope present name bound)⟩
  define state scope name value :=
    ⟨samePlace_define state scope name value, fun _ _ _ bound =>
      Scopes.isSome_bound?_define bound scope name value⟩
  write state bytes := ⟨samePlace.write state bytes, fun _ _ _ => id⟩
  leaveBlock {state last} kept := by
    refine ⟨samePlace.leaveBlock kept.place, fun scope present name bound => ?_⟩
    rw [bound?_leaveBlock kept.place present]
    have inside : scope < state.enterBlock.scopes.size := by
      rw [size_enterBlock]
      exact Nat.lt_succ_of_lt present
    exact kept.names scope inside name (by rwa [bound?_enterBlock])

/-! ### Inside of a block -/

/-- Whether a run that was in `entry` has come into blocks since. Their scopes are `inner`, the
innermost first. -/
structure Within (state entry : Interpreter W) (inner : List ScopeId) : Prop where
  chain : state.scopes.chain state.current = inner ++ entry.scopes.chain entry.current
  current : state.current ∈ inner
  recent : ∀ scope ∈ inner, entry.scopes.size ≤ scope
  present : ∀ scope ∈ inner, scope < state.scopes.size

/-- Whether a name is bound by one of the scopes of `inner`. -/
def Binds (state : Interpreter W) (inner : List ScopeId) (name : String) : Prop :=
  ∃ scope ∈ inner, (state.scopes.bound? scope name).isSome = true

variable {entry state last : Interpreter W} {inner : List ScopeId} {name : String}

theorem Within.of_keeps (within : state.Within entry inner) (kept : KeepsNames state last) :
    last.Within entry inner where
  chain := by rw [Scopes.chain_congr kept.place.2, kept.place.1, within.chain]
  current := kept.place.1 ▸ within.current
  recent := within.recent
  present := kept.place.size_eq ▸ within.present

theorem Within.size_le (within : state.Within entry inner) :
    entry.scopes.size ≤ state.scopes.size :=
  Nat.le_trans (within.recent _ within.current) (Nat.le_of_lt (within.present _ within.current))

theorem within_enterBlock (state : Interpreter W) :
    state.enterBlock.Within state [state.scopes.size] where
  chain := chain_enterBlock state
  current := List.mem_cons_self
  recent := by simp
  present := by simp [size_enterBlock]

theorem Within.enterBlock (within : state.Within entry inner) :
    state.enterBlock.Within entry (state.scopes.size :: inner) where
  chain := by rw [chain_enterBlock, within.chain, List.cons_append]
  current := List.mem_cons_self
  recent := List.forall_mem_cons.mpr ⟨within.size_le, within.recent⟩
  present := by
    rw [size_enterBlock]
    exact List.forall_mem_cons.mpr
      ⟨Nat.lt_succ_self _, fun scope member => Nat.lt_succ_of_lt (within.present scope member)⟩

theorem Binds.of_keeps (within : state.Within entry inner) (kept : KeepsNames state last)
    (binds : state.Binds inner name) : last.Binds inner name := by
  obtain ⟨scope, member, bound⟩ := binds
  exact ⟨scope, member, kept.names scope (within.present scope member) name bound⟩

theorem Binds.enterBlock (binds : state.Binds inner name) :
    state.enterBlock.Binds (state.scopes.size :: inner) name := by
  obtain ⟨scope, member, bound⟩ := binds
  exact ⟨scope, List.mem_cons_of_mem _ member, by rwa [bound?_enterBlock]⟩

/-- A name that is bound in the current scope is bound inside of the block. -/
theorem Within.binds_define (within : state.Within entry inner) (name : String) (value : Value) :
    (state.withBinding name value).Binds inner name := by
  refine ⟨state.current, within.current, ?_⟩
  rw [withBinding, Scopes.bound?_define, if_pos ⟨rfl, rfl, within.present _ within.current⟩]
  rfl

end Interpreter

/-! ### Output -/

namespace Interpreter

/-- Whether what had been written is still there, with what has been written since. -/
def Continues (state last : Interpreter Sink) : Prop :=
  ∃ more, last.sink.written = state.sink.written ++ more

end Interpreter

end BlockScript
