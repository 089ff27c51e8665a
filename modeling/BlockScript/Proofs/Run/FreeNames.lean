import BlockScript.Parse.Program
import BlockScript.Proofs.Run.Frame
import BlockScript.Proofs.Scope.View

/-!
# What a program depends on

A name is free in a program if it is read or assigned where no declaration before it, in the
same list of statements or in a list around that, declares it (`Stmt.freeAll`).

## Main results

`Interpreter.interpret_free`: two interpreters that agree on the free names of a program, and
whose writers behave alike, run it alike, and agree on its free names afterwards.

## Proof strategy

1. What both interpreters know is one view: the bindings of the blocks that the program has
   entered, and outside of them the values of the free names.
2. A computation that depends on names which the view covers does the same to both
   interpreters and leaves them with one view again (`Run.DependsOn`).
3. This is kept when computations are put together as programs are (`Run.dependsOn_rules`); a
   declaration lets what follows depend on one name more.
-/

namespace BlockScript

variable {W : Type}

/-! ### Writers -/

section

variable [Writer W]

def Writer.after (writer : W) (writes : List ByteArray) : W :=
  writes.foldl (fun writer bytes => (write writer bytes).2) writer

theorem Writer.after_append (writer : W) (writes more : List ByteArray) :
    after writer (writes ++ more) = after (after writer writes) more :=
  List.foldl_append

/-- Whether writers that are related behave alike: every write has the same result with both, and
they are related again. -/
structure Writer.Alike (related : W → W → Prop) : Prop where
  result : ∀ {one other}, related one other → ∀ bytes, (write one bytes).1 = (write other bytes).1
  next : ∀ {one other}, related one other → ∀ bytes,
    related (write one bytes).2 (write other bytes).2

end

/-- Sinks behave alike if they have the same room and refuse in the same way. They keep the same
bytes behind those that they had. -/
theorem Sink.alike_behind (start start' : Sink) :
    Writer.Alike fun one other : Sink =>
      (one.room = other.room ∧ one.refusal = other.refusal) ∧
        ∃ output, one.written = start.written ++ output ∧
          other.written = start'.written ++ output where
  result := by
    rintro one other ⟨⟨room, refusal⟩, -⟩ bytes
    simp only [Writer.write, write, room, refusal]
    split
    · rfl
    · split <;> rfl
  next := by
    rintro one other ⟨⟨room, refusal⟩, output, wrote, wrote'⟩ bytes
    simp only [Writer.write, write, room, wrote, wrote']
    split
    next unlimited =>
      exact ⟨⟨by simp [unlimited], refusal⟩, output ++ bytes, ByteArray.append_assoc,
        ByteArray.append_assoc⟩
    next left _ =>
      split
      · exact ⟨⟨rfl, refusal⟩, output ++ bytes, ByteArray.append_assoc, ByteArray.append_assoc⟩
      · exact ⟨⟨rfl, refusal⟩, output ++ bytes.extract 0 left, ByteArray.append_assoc,
          ByteArray.append_assoc⟩

namespace Interpreter

/-- Whether the current scope of an interpreter looks like a view. -/
def Shows (state : Interpreter W) (view : View) : Prop :=
  view.Shows state.scopes (state.scopes.chain state.current)

/-- Whether two interpreters look like one view, and their writers are related. -/
structure Alike (related : W → W → Prop) (view : View) (one other : Interpreter W) : Prop where
  left : one.Shows view
  right : other.Shows view
  sinks : related one.sink other.sink

end Interpreter

/-! ### Computations that depend on names -/

namespace Run

open Interpreter

variable [Writer W] {related : W → W → Prop} {α β : Type}

/-- Whether two interpreters have come alike from `one` and `other`, and look alike again. If
they have come to an end without an error, they know `gives`. -/
structure EndAlike (related : W → W → Prop) (view : View) (gives : Option String)
    (one other : Interpreter W) (first second : Except RuntimeError α × Interpreter W) : Prop where
  result : first.1 = second.1
  output : ∃ writes, first.2.sink = Writer.after one.sink writes ∧
    second.2.sink = Writer.after other.sink writes
  alike : ∃ next, view.Grows next ∧ Alike related next first.2 second.2 ∧
    ∀ value, first.1 = .ok value → ∀ name ∈ gives, next.Covers name

/-- Whether a computation does the same to interpreters that look alike, if the view covers
the names `needs`. Without an error the name `gives` is covered afterwards. -/
structure DependsOn (related : W → W → Prop) (needs : List String) (gives : Option String)
    (run : Run W α) : Prop where
  keeps : run.KeepsPlace
  ends : ∀ {view one other}, Alike related view one other → (∀ name ∈ needs, view.Covers name) →
    EndAlike related view gives one other (run one) (run other)

variable {needs : List String} {gives : Option String} {run : Run W α}

theorem DependsOn.mono {more : List String} (depends : run.DependsOn related needs gives)
    (subset : ∀ name ∈ needs, name ∈ more) : run.DependsOn related more gives where
  keeps := depends.keeps
  ends alike covers := depends.ends alike fun name member => covers name (subset name member)

theorem DependsOn.forget (depends : run.DependsOn related needs gives) :
    run.DependsOn related needs none where
  keeps := depends.keeps
  ends alike covers := by
    obtain ⟨result, output, next, grows, alike', -⟩ := depends.ends alike covers
    exact ⟨result, output, next, grows, alike', by simp⟩

theorem EndAlike.of_same {view next : View} {one other first second : Interpreter W}
    {result : Except RuntimeError α} (grows : view.Grows next)
    (alike : Alike related next first second) (silent : first.sink = one.sink)
    (silent' : second.sink = other.sink) :
    EndAlike related view none one other (result, first) (result, second) where
  result := rfl
  output := ⟨[], silent, silent'⟩
  alike := ⟨next, grows, alike, by simp⟩

theorem dependsOn_pure (value : α) : (pure value : Run W α).DependsOn related needs none where
  keeps := samePlace.pure value
  ends {view _ _} alike _ := .of_same (.refl view) alike rfl rfl

theorem dependsOn_lift (result : Except RuntimeError α) :
    (liftM result : Run W α).DependsOn related needs none where
  keeps := samePlace.lift result
  ends {view _ _} alike _ := .of_same (.refl view) alike rfl rfl

/-- What follows may depend on what the first computation depends on and on the name that it
gives. -/
theorem DependsOn.bind {between : Option String} {next : α → Run W β}
    (depends : run.DependsOn related needs between) (after : List String)
    (dependsNext : ∀ value, (next value).DependsOn related after gives)
    (enough : ∀ name ∈ after, name ∈ needs ∨ between = some name) :
    (run >>= next).DependsOn related needs gives where
  keeps := samePlace.bind depends.keeps fun value => (dependsNext value).keeps
  ends {view one other} alike covers := by
    obtain ⟨result, ⟨writes, wrote, wrote'⟩, inner, grows, alike', given⟩ :=
      depends.ends alike covers
    rw [bind_apply, bind_apply]
    revert result wrote wrote' alike' given
    rcases run one with ⟨result, first⟩
    rcases run other with ⟨_, second⟩
    rintro rfl wrote wrote' alike' given
    cases result with
    | error error => exact ⟨rfl, ⟨writes, wrote, wrote'⟩, inner, grows, alike', by simp⟩
    | ok value =>
      have covers' : ∀ name ∈ after, inner.Covers name := by
        intro name member
        rcases enough name member with needed | given'
        · exact grows.covers (covers name needed)
        · exact given value rfl name given'
      obtain ⟨result, ⟨more, wroteMore, wroteMore'⟩, last, growsMore, alikeLast, givenLast⟩ :=
        (dependsNext value).ends alike' covers'
      refine ⟨result, ⟨writes ++ more, ?_, ?_⟩, last, grows.trans growsMore, alikeLast, givenLast⟩
      · rw [wroteMore, wrote, Writer.after_append]
      · rw [wroteMore', wrote', Writer.after_append]

end Run

/-! ### Blocks -/

namespace Interpreter

theorem Shows.enterBlock {state : Interpreter W} {view : View} (shows : state.Shows view) :
    state.enterBlock.Shows (.block (fun _ => none) view) := by
  unfold Shows
  change View.Shows _ _ ((state.scopes.push _).chain state.scopes.size)
  rw [Scopes.chain_push_size]
  exact View.Shows.enter shows _

theorem Shows.leaveBlock {state last : Interpreter W} {bindings : Bindings} {around : View}
    (same : SamePlace state.enterBlock last) (shows : last.Shows (.block bindings around)) :
    (last.leaveBlock state.current).Shows around := by
  have chain : last.scopes.chain last.current =
      state.scopes.size :: state.scopes.chain state.current := by
    rw [Scopes.chain_congr same.2, same.1]
    exact chain_enterBlock state
  have chainPop : last.scopes.pop.chain state.current = state.scopes.chain state.current :=
    Scopes.chain_congr (links_leaveBlock same.2) state.current
  unfold Shows at shows ⊢
  rw [chain] at shows
  change View.Shows last.scopes.pop around (last.scopes.pop.chain state.current)
  rw [chainPop]
  exact shows.leave same.size_inside

end Interpreter

namespace Run

open Interpreter

theorem DependsOn.inBlock [Writer W] {related : W → W → Prop} {α : Type} {needs : List String}
    {gives : Option String} {body : Run W α} (depends : body.DependsOn related needs gives) :
    (Run.inBlock body).DependsOn related needs none where
  keeps := samePlace.inBlock depends.keeps
  ends {view one other} alike covers := by
    have inside : Alike related (.block (fun _ => none) view) one.enterBlock other.enterBlock :=
      ⟨alike.left.enterBlock, alike.right.enterBlock, alike.sinks⟩
    obtain ⟨result, output, next, grows, alike', -⟩ :=
      depends.ends inside fun name member => .inr (covers name member)
    cases grows with
    | block _ grown =>
      refine ⟨result, output, _, grown, ⟨?_, ?_, alike'.sinks⟩, by simp⟩
      · exact .leaveBlock (depends.keeps one.enterBlock) alike'.left
      · exact .leaveBlock (depends.keeps other.enterBlock) alike'.right

end Run

/-! ### Names and output -/

namespace Interpreter

open Run

variable {state : Interpreter W} {view : View}

theorem Shows.get? (shows : state.Shows view) {name : String} (covers : view.Covers name) :
    state.scopes.get? state.current name = view.get name :=
  View.Shows.get shows covers

theorem Shows.define (shows : state.Shows view) (name : String) (value : Value) :
    (state.withBinding name value).Shows (view.define name value) := by
  unfold Shows
  change View.Shows _ _ ((state.scopes.define _ _ _).chain state.current)
  rw [Scopes.chain_define]
  exact View.Shows.define shows name value

theorem Shows.assign (shows : state.Shows view) {owner : ScopeId} {name : String}
    (found : state.scopes.owner? state.current name = some owner) (value : Value) :
    Interpreter.Shows { state with scopes := state.scopes.define owner name value }
      (view.assign name value) := by
  unfold Shows
  rw [Scopes.chain_define]
  exact View.Shows.assign shows value found

variable [Writer W] {related : W → W → Prop}

theorem dependsOn_get (name : Token) :
    (get name : Run W Value).DependsOn related [name.lexeme] none where
  keeps := samePlace.get name
  ends {view one other} alike covers := by
    have covered := covers name.lexeme List.mem_cons_self
    unfold get
    rw [alike.left.get? covered, alike.right.get? covered]
    cases view.get name.lexeme <;> exact .of_same (.refl view) alike rfl rfl

theorem dependsOn_define (name : String) (value : Value) :
    (define name value : Run W Unit).DependsOn related [] (some name) where
  keeps := samePlace.bindName name value
  ends {view one other} alike _ := by
    refine ⟨rfl, ⟨[], rfl, rfl⟩, view.define name value, view.grows_define name value, ?_, ?_⟩
    · exact ⟨alike.left.define name value, alike.right.define name value, alike.sinks⟩
    · rintro _ _ _ ⟨⟩
      exact view.covers_define name value

/-- Where a name has no value an assignment fails; otherwise it overwrites the value that the
view has. -/
theorem dependsOn_assign (name : Token) (value : Value) :
    (assign name value : Run W Unit).DependsOn related [name.lexeme] none where
  keeps := samePlace.assign name value
  ends {view one other} alike covers := by
    have covered := covers name.lexeme List.mem_cons_self
    have some_iff : (one.scopes.owner? one.current name.lexeme).isSome =
        (other.scopes.owner? other.current name.lexeme).isSome := by
      rw [Scopes.isSome_owner?, Scopes.isSome_owner?, alike.left.get? covered,
        alike.right.get? covered]
    unfold assign
    cases found : one.scopes.owner? one.current name.lexeme with
    | none =>
      cases found' : other.scopes.owner? other.current name.lexeme with
      | none => exact .of_same (.refl view) alike rfl rfl
      | some owner' => simp [found, found'] at some_iff
    | some owner =>
      cases found' : other.scopes.owner? other.current name.lexeme with
      | none => simp [found, found'] at some_iff
      | some owner' =>
        refine .of_same (view.grows_assign name.lexeme value) ⟨?_, ?_, alike.sinks⟩ rfl rfl
        · exact alike.left.assign found value
        · exact alike.right.assign found' value

theorem dependsOn_print (behave : Writer.Alike related) (keyword : Token) (value : Value) :
    (print keyword value : Run W Unit).DependsOn related [] none where
  keeps := samePlace.print keyword value
  ends {view one other} alike _ := by
    have result := behave.result alike.sinks (value.text ++ "\n").toUTF8
    have sinks := behave.next alike.sinks (value.text ++ "\n").toUTF8
    have wrote : ∀ writer : W, (Writer.write writer (value.text ++ "\n").toUTF8).2 =
        Writer.after writer [(value.text ++ "\n").toUTF8] := fun _ => rfl
    have wroteOne := wrote one.sink
    have wroteOther := wrote other.sink
    unfold print
    revert result sinks wroteOne wroteOther
    rcases Writer.write one.sink (value.text ++ "\n").toUTF8 with ⟨_ | _, sink⟩
    all_goals
      rcases Writer.write other.sink (value.text ++ "\n").toUTF8 with ⟨_, sink'⟩
      rintro ⟨⟩ sinks wroteOne wroteOther
      exact ⟨rfl, ⟨_, wroteOne, wroteOther⟩, view, .refl view,
        ⟨alike.left, alike.right, sinks⟩, by simp⟩

end Interpreter

/-! ### Main theorem -/

open Interpreter in
/-- What a program depends on are the names that it mentions freely. -/
theorem Run.dependsOn_rules [Writer W] {related : W → W → Prop} (behave : Writer.Alike related) :
    ProgramRules .any fun needs gives run => run.DependsOn related needs gives where
  mono := DependsOn.mono
  forget := DependsOn.forget
  pure := dependsOn_pure
  lift := dependsOn_lift
  bind := DependsOn.bind
  inBlock := DependsOn.inBlock
  get := dependsOn_get
  assign := dependsOn_assign
  define := dependsOn_define
  print := dependsOn_print behave

namespace Interpreter

variable {related : W → W → Prop}

theorem alike_of_agree {one other : Interpreter W} {names : List String} (inStore : one.InStore)
    (inStore' : other.InStore)
    (agree : ∀ name ∈ names,
      one.scopes.get? one.current name = other.scopes.get? other.current name)
    (sinks : related one.sink other.sink) :
    Alike related (.outside (· ∈ names) (one.scopes.get? one.current ·)) one other := by
  refine ⟨.outside inStore fun _ _ => rfl, .outside inStore' ?_, sinks⟩
  intro name member
  exact (agree name member).symm

variable [Writer W]

/-- A program means the same to two interpreters that agree on its free names, and whose writers
behave alike: the same is written to both, it ends in the same way, and they agree on the free
names again. Whatever writers keep that behave alike is kept, such as the bytes that two sinks have
gained. -/
theorem interpret_free {program : Program} {one other : Interpreter W} (inStore : one.InStore)
    (inStore' : other.InStore)
    (agree : ∀ name ∈ Stmt.freeAll .any program,
      one.scopes.get? one.current name = other.scopes.get? other.current name)
    (behave : Writer.Alike related) (sinks : related one.sink other.sink) :
    let first := interpret program one
    let second := interpret program other
    first.1 = second.1 ∧
    (∃ writes, first.2.sink = Writer.after one.sink writes ∧
      second.2.sink = Writer.after other.sink writes) ∧
    related first.2.sink second.2.sink ∧
    ∀ name ∈ Stmt.freeAll .any program,
      first.2.scopes.get? first.2.current name = second.2.scopes.get? second.2.current name := by
  intro first second
  obtain ⟨result, output, next, grows, alike, -⟩ :=
    ((Run.dependsOn_rules behave).execAll program).ends
      (alike_of_agree inStore inStore' agree sinks) fun _ member => member
  rw [← interpret_eq] at result output alike
  refine ⟨result, output, alike.sinks, fun name member => ?_⟩
  have covers : next.Covers name := grows.covers member
  exact (alike.left.get? covers).trans (alike.right.get? covers).symm

/-- A global and a name that is bound one scope further out are the same to a program. It is
stopped in its block by a name that neither interpreter knows. -/
theorem interpret_free_stopped :
    let program := (parse "a = nil; { var a = true; print a; a = b; }").program
    let globals := Scopes.empty.create.define 0 "a" (.bool true)
    let one : Interpreter Sink := ⟨globals, 0, .limited 9 .full⟩
    let other : Interpreter Sink := ⟨globals.createIn 0, 1, .limited 9 .full⟩
    Stmt.freeAll .any program = ["a", "b"] ∧
      (interpret program one).1 = (interpret program other).1 ∧
      (interpret program one).2.sink.written = (interpret program other).2.sink.written := by
  intro program globals one other
  have free : Stmt.freeAll .any program = ["a", "b"] := by decide +kernel
  have inStore : one.InStore := by decide +kernel
  have inStore' : other.InStore := by decide +kernel
  have agree : ∀ name ∈ Stmt.freeAll .any program,
      one.scopes.get? one.current name = other.scopes.get? other.current name := by decide +kernel
  have nothing : one.sink.written = one.sink.written ++ .empty := ByteArray.append_empty.symm
  have same := interpret_free inStore inStore' agree (Sink.alike_behind one.sink other.sink)
    ⟨⟨rfl, rfl⟩, .empty, nothing, nothing⟩
  obtain ⟨output, wrote, wrote'⟩ := same.2.2.1.2
  exact ⟨free, same.1, wrote.trans wrote'.symm⟩

end Interpreter
end BlockScript
