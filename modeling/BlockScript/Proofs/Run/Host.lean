import BlockScript.Proofs.Run.Frame

/-!
# The interpreter in the hands of a host

A host runs texts in one session, executes programs, evaluates expressions and makes scopes
of its own, which it fills, reads and executes programs in.

## Main results

`Host.root_and_links_kept`: whatever a host has asked for and however that ended, the interpreter is
back in the scope it began with, every scope is enclosed by what it was made inside of, every
search for a name ends, and the texts that are not programs might as well not have been run.

## Proof strategy

1. A step keeps the place of the interpreter or makes one scope (`Host.step_changes`).
2. So a step keeps the store linked and only adds to the links (`Steady.changes`).
3. The same holds for any list of steps, by induction on the list.
-/

namespace BlockScript

variable {W : Type}

theorem Session.run_keepsPlace [Writer W] (text : String) (session : Session W) :
    (session.run text).2.current = session.current ∧
      (session.run text).2.scopes.links = session.scopes.links :=
  run_respects Interpreter.samePlace text session

/-- What a host asks for with a scope. -/
inductive ScopeAction where
  | enclose
  | share
  | define (name : String) (value : Value)
  | get (name : Token)
  | assign (name : Token) (value : Value)
  | execute (program : Program)

/-- The link of the scope that an action with `scope` makes, if it makes one. -/
def ScopeAction.creates (scope : ScopeId) : ScopeAction → Option (Option ScopeId)
  | enclose => some (some scope)
  | _ => none

/-- What a host asks for. Its scopes are known to it by handles, which are numbered as they
are handed out. -/
inductive Action where
  | run (text : String)
  | interpret (program : Program)
  | evaluate (expr : Expr)
  | create
  | use (handle : Nat) (action : ScopeAction)

/-- Whether an action is the run of a text that is not a program. -/
def Action.isRejected : Action → Bool
  | run text => !(parse text).errors.isEmpty
  | _ => false

inductive Answer where
  | report (report : Report)
  | done (result : Except RuntimeError Unit)
  | value (result : Except RuntimeError Value)
  | handle (number : Nat)
  | unknownHandle

/-- An interpreter and the scopes that have been handed out. -/
structure Host (W : Type) where
  interpreter : Interpreter W
  handles : List ScopeId

/-- An action, the answer to it, and the writer before and after it. -/
structure Entry (W : Type) where
  action : Action
  answer : Answer
  before : W
  after : W

namespace Host

variable {α : Type}

/-- A new interpreter. The first handle is for its own scope. -/
def start (sink : W) : Host W :=
  ⟨Interpreter.new sink, [0]⟩

/-- Runs a computation on the interpreter and answers with the result. -/
def perform (host : Host W) (answer : Except RuntimeError α → Answer) (run : Run W α) :
    Answer × Host W :=
  let (result, interpreter) := run host.interpreter
  (answer result, { host with interpreter })

/-- Hands out a scope of the given store, which becomes that of the interpreter. -/
def handOut (host : Host W) (scopes : Scopes) (scope : ScopeId) : Answer × Host W :=
  (.handle host.handles.length,
    ⟨{ host.interpreter with scopes }, host.handles ++ [scope]⟩)

variable [Writer W]

def use (host : Host W) (scope : ScopeId) : ScopeAction → Answer × Host W
  | .enclose =>
    host.handOut (host.interpreter.scopes.createIn scope) host.interpreter.scopes.size
  | .share => host.handOut host.interpreter.scopes scope
  | .define name value => host.perform .done (Run.within scope (Interpreter.define name value))
  | .get name => host.perform .value (Run.within scope (Interpreter.get name))
  | .assign name value => host.perform .done (Run.within scope (Interpreter.assign name value))
  | .execute program => host.perform .done (Interpreter.executeIn scope program)

def step (host : Host W) : Action → Answer × Host W
  | .run text =>
    let (report, interpreter) := Session.run host.interpreter text
    (.report report, { host with interpreter })
  | .interpret program => host.perform .done (Interpreter.interpret program)
  | .evaluate expr => host.perform .value fun state => state.evaluate (.eval expr) []
  | .create => host.handOut host.interpreter.scopes.create host.interpreter.scopes.size
  | .use handle action =>
    match host.handles[handle]? with
    | some scope => host.use scope action
    | none => (.unknownHandle, host)

def after (host : Host W) (actions : List Action) : Host W :=
  actions.foldl (fun host action => (host.step action).2) host

def entry (host : Host W) (action : Action) : Entry W :=
  let (answer, next) := host.step action
  ⟨action, answer, host.interpreter.sink, next.interpreter.sink⟩

def transcript (host : Host W) : List Action → List (Entry W)
  | [] => []
  | action :: rest => host.entry action :: (host.step action).2.transcript rest

/-- The link of the scope that an action makes, if it makes one. -/
def creates (host : Host W) : Action → Option (Option ScopeId)
  | .create => some none
  | .use handle action => host.handles[handle]?.bind action.creates
  | _ => none

/-- The links of the scopes that a list of actions makes, in order. -/
def created (host : Host W) : List Action → List (Option ScopeId)
  | [] => []
  | action :: rest => (host.creates action).toList ++ (host.step action).2.created rest

/-! ### What a step can do -/

/-- How a host may change in one step, given the link of the scope that the step makes. The
interpreter never moves to another scope. -/
inductive Changes (host next : Host W) : Option (Option ScopeId) → Prop where
  /-- Only bindings and output change, and no scope is handed out that was not before. -/
  | keep (current : next.interpreter.current = host.interpreter.current)
      (links : next.interpreter.scopes.links = host.interpreter.scopes.links)
      (handles : ∀ scope ∈ next.handles, scope ∈ host.handles) : Changes host next none
  /-- One scope is made, alone or inside of a scope that has a handle, and handed out. -/
  | make (enclosing : List ScopeId)
      (around : enclosing = [] ∨ ∃ outer ∈ host.handles,
        enclosing = host.interpreter.scopes.chain outer)
      (current : next.interpreter.current = host.interpreter.current)
      (scopes : next.interpreter.scopes = host.interpreter.scopes.push enclosing)
      (handles : next.handles = host.handles ++ [host.interpreter.scopes.size]) :
      Changes host next (some enclosing.head?)

omit [Writer W] in
theorem perform_changes (host : Host W) (answer : Except RuntimeError α → Answer) {run : Run W α}
    (keeps : run.KeepsPlace) : host.Changes (host.perform answer run).2 none :=
  .keep (keeps host.interpreter).1 (keeps host.interpreter).2 fun _ member => member

theorem use_changes (host : Host W) {scope : ScopeId} (known : scope ∈ host.handles)
    (action : ScopeAction) :
    host.Changes (host.use scope action).2 (action.creates scope) := by
  cases action with
  | enclose =>
    exact .make (host.interpreter.scopes.chain scope) (.inr ⟨scope, known, rfl⟩) rfl rfl rfl
  | share =>
    refine .keep rfl rfl fun other member => ?_
    rcases List.mem_append.mp member with old | new
    · exact old
    · rwa [List.mem_singleton.mp new]
  | define name value =>
    exact host.perform_changes _ ((Interpreter.keepsPlace_define name value).within scope)
  | get name => exact host.perform_changes _ ((Interpreter.keepsPlace_get name).within scope)
  | assign name value =>
    exact host.perform_changes _ ((Interpreter.keepsPlace_assign name value).within scope)
  | execute program =>
    apply host.perform_changes
    rw [Interpreter.executeIn, Interpreter.interpret_eq]
    exact (Stmt.execAll_keepsPlace program).within scope

theorem step_changes (host : Host W) (action : Action) :
    host.Changes (host.step action).2 (host.creates action) := by
  cases action with
  | run text =>
    have keeps := Session.run_keepsPlace text host.interpreter
    exact .keep keeps.1 keeps.2 fun _ member => member
  | interpret program =>
    apply host.perform_changes
    rw [Interpreter.interpret_eq]
    exact Stmt.execAll_keepsPlace program
  | evaluate expr =>
    apply host.perform_changes
    rw [funext (Interpreter.evaluate_eq expr)]
    exact expr.eval_keepsPlace
  | create => exact .make [] (.inl rfl) rfl rfl rfl
  | use handle action =>
    simp only [step, creates]
    cases found : host.handles[handle]? with
    | none => exact .keep rfl rfl fun _ member => member
    | some scope => exact host.use_changes (List.mem_of_getElem? found) action

/-! ### What every step keeps -/

/-- The interpreter is in the first scope, nothing encloses that, and every scope that has
been handed out is in the store. -/
structure Steady (host : Host W) : Prop where
  current : host.interpreter.current = 0
  alone : host.interpreter.scopes.links[0]? = some []
  linked : host.interpreter.scopes.Linked
  known : ∀ scope ∈ host.handles, scope < host.interpreter.scopes.size

omit [Writer W] in
theorem steady_start (sink : W) : (start sink).Steady where
  current := rfl
  alone := rfl
  linked := Scopes.linked_empty.create
  known := by
    intro scope member
    obtain rfl := List.mem_singleton.mp member
    exact Nat.one_pos

omit [Writer W] in
theorem Steady.changes {host next : Host W} {made : Option (Option ScopeId)} (steady : host.Steady)
    (changes : host.Changes next made) : next.Steady := by
  cases changes with
  | keep current links handles =>
    constructor
    · exact current.trans steady.current
    · rw [links]
      exact steady.alone
    · exact steady.linked.of_links_eq links
    · intro scope member
      rw [← Scopes.length_links, links, Scopes.length_links]
      exact steady.known scope (handles scope member)
  | make enclosing around current scopes handles =>
    constructor
    · exact current.trans steady.current
    · rw [scopes, Scopes.links_push, List.getElem?_append_left]
      · exact steady.alone
      · exact (List.getElem?_eq_some_iff.mp steady.alone).1
    · rw [scopes]
      refine steady.linked.push (around.imp_right ?_)
      rintro ⟨outer, member, same⟩
      exact ⟨outer, steady.known outer member, same⟩
    · intro scope member
      rw [scopes, Scopes.size_push]
      rw [handles] at member
      rcases List.mem_append.mp member with old | new
      · exact Nat.lt_succ_of_lt (steady.known scope old)
      · rw [List.mem_singleton.mp new]
        exact Nat.lt_succ_self _

theorem Steady.after {host : Host W} (steady : host.Steady) (actions : List Action) :
    (host.after actions).Steady := by
  induction actions generalizing host with
  | nil => exact steady
  | cons action rest ih => exact ih (steady.changes (host.step_changes action))

/-- Whatever scope the host has a handle to, all that can be seen from there is in the store. -/
theorem inStore_after (sink : W) (actions : List Action) {scope : ScopeId}
    (member : scope ∈ ((start sink).after actions).handles) :
    Interpreter.InStore { ((start sink).after actions).interpreter with current := scope } := by
  have steady := (steady_start sink).after actions
  intro outer seen
  exact Nat.lt_of_le_of_lt (steady.linked.le_of_mem_chain seen) (steady.known scope member)

/-! ### Links -/

omit [Writer W] in
/-- A step adds at most the link of the scope that it makes. -/
theorem links_changes {host next : Host W} {made : Option (Option ScopeId)}
    (changes : host.Changes next made) :
    next.interpreter.scopes.links.map List.head? =
      host.interpreter.scopes.links.map List.head? ++ made.toList := by
  cases changes with
  | keep current links handles => simp [links]
  | make enclosing around current scopes handles => simp [scopes]

theorem links_after (host : Host W) (actions : List Action) :
    (host.after actions).interpreter.scopes.links.map List.head? =
      host.interpreter.scopes.links.map List.head? ++ host.created actions := by
  induction actions generalizing host with
  | nil => exact (List.append_nil _).symm
  | cons action rest ih =>
    calc (host.after (action :: rest)).interpreter.scopes.links.map List.head?
        = (host.step action).2.interpreter.scopes.links.map List.head? ++
            (host.step action).2.created rest := ih (host.step action).2
      _ = host.interpreter.scopes.links.map List.head? ++ host.created (action :: rest) := by
          rw [links_changes (host.step_changes action), List.append_assoc, created]

/-! ### Rejected texts -/

/-- The run of a text that is not a program leaves the host as it was. -/
theorem step_rejected (host : Host W) {action : Action} (rejected : action.isRejected = true) :
    (host.step action).2 = host := by
  cases action with
  | run text =>
    have wrong : (parse text).errors ≠ [] := by
      simpa [Action.isRejected] using rejected
    simp only [step, Session.run_of_errors wrong]
  | _ => cases rejected

theorem after_filter (host : Host W) (actions : List Action) :
    host.after (actions.filter (!·.isRejected)) = host.after actions := by
  induction actions generalizing host with
  | nil => rfl
  | cons action rest ih =>
    cases rejected : action.isRejected with
    | true =>
      rw [List.filter_cons_of_neg (by simp [rejected]), ih]
      exact congrArg (·.after rest) (host.step_rejected rejected).symm
    | false =>
      rw [List.filter_cons_of_pos (by simp [rejected])]
      exact ih (host.step action).2

theorem transcript_filter (host : Host W) (actions : List Action) :
    host.transcript (actions.filter (!·.isRejected)) =
      (host.transcript actions).filter (!·.action.isRejected) := by
  induction actions generalizing host with
  | nil => rfl
  | cons action rest ih =>
    have asked : (host.entry action).action = action := rfl
    cases rejected : action.isRejected with
    | true =>
      rw [List.filter_cons_of_neg (by simp [rejected]), transcript,
        List.filter_cons_of_neg (by simp [asked, rejected]), host.step_rejected rejected, ih]
    | false =>
      rw [List.filter_cons_of_pos (by simp [rejected]), transcript, transcript,
        List.filter_cons_of_pos (by simp [asked, rejected]), ih]

/-! ### Main theorem -/

/-- After any list of actions: the interpreter is in the scope that it began in, which nothing
encloses; the links of the store are those that its scopes were made with, in order; following
them ends, from every scope; every search for a name ends, and finds the scope whose binding is
read or overwritten. Texts that are not programs change nothing, so leaving them out changes
nothing else that is seen. -/
theorem root_and_links_kept (sink : W) (actions : List Action) :
    let host := (start sink).after actions
    let scopes := host.interpreter.scopes
    host.interpreter.current = (start sink).interpreter.current ∧
    scopes.parent? host.interpreter.current = none ∧
    (List.range scopes.size).map scopes.parent? = none :: (start sink).created actions ∧
    (∀ scope, ∃ steps, scopes.climb? steps scope = none) ∧
    (∀ scope name, ∃ found, (∀ other, scopes.Search name scope other ↔ other = found) ∧
      scopes.owner? scope name = found ∧
      scopes.get? scope name = found.bind (scopes.bound? · name)) ∧
    (∀ text, (parse text).errors ≠ [] →
      host.step (.run text) = (.report ⟨(parse text).errors, none⟩, host)) ∧
    (start sink).after (actions.filter (!·.isRejected)) = host ∧
    (start sink).transcript (actions.filter (!·.isRejected)) =
      ((start sink).transcript actions).filter (!·.action.isRejected) := by
  intro host scopes
  have steady : host.Steady := (steady_start sink).after actions
  refine ⟨steady.current, ?_, ?_, ?_, ?_, ?_, after_filter _ actions, transcript_filter _ actions⟩
  · rw [steady.current, Scopes.parent?, steady.alone]
    rfl
  · rw [scopes.map_parent?]
    exact links_after (start sink) actions
  · intro scope
    refine ⟨(scopes.chain scope).length, ?_⟩
    rw [steady.linked.climb?_eq, List.getElem?_eq_none (Nat.le_refl _)]
  · intro scope name
    refine ⟨scopes.owner? scope name, fun other => ?_, rfl, scopes.get?_eq_bind_owner? scope name⟩
    rw [steady.linked.search_iff, eq_comm]
  · intro text wrong
    simp only [step, Session.run_of_errors wrong]

/-- After a run that is stopped inside of a block and a program in a scope of the host's own, a
text that is not a program is reported and leaves everything as it is. -/
theorem root_and_links_kept_rejected :
    let actions : List Action := [.run "var a = nil; { var a = true; print a + a; }",
      .use 0 .enclose, .use 1 (.execute (parse "a = 1; { print a; }").program)]
    let host := (start Sink.unlimited).after actions
    (parse "print ;").errors ≠ [] ∧
      host.step (.run "print ;") = (.report ⟨(parse "print ;").errors, none⟩, host) ∧
      host.interpreter.current = 0 := by
  intro actions host
  have wrong : (parse "print ;").errors ≠ [] := by decide +kernel
  obtain ⟨current, -, -, -, -, rejected, -⟩ := root_and_links_kept Sink.unlimited actions
  exact ⟨wrong, rejected "print ;" wrong, current⟩

end Host
end BlockScript
