import BlockScript.Proofs.Run.Host
import BlockScript.Proofs.Scope.Update

/-!
# Names seen through handles

A host may have handles to many scopes of one store, and several to one scope. What it does
through one of them can be seen through the others.

## Main result

`Host.handle_laws`: an assignment changes what a name means exactly where the name has the same
owner, a definition exactly where it is reached, and an assignment that fails changes nothing.

## Proof strategy

Assigning is defining in the owner, if there is one. So both are changes of one binding, and what
such a change does to a lookup is known (`Scopes.get?_define`, `Scopes.get?_overwrite`).
-/

namespace BlockScript.Host

variable {W : Type} [Writer W]

/-- The answer to looking a name up from a scope. -/
def look (host : Host W) (scope : ScopeId) (name : Token) : Answer :=
  (host.use scope (.get name)).1

def withScopes (host : Host W) (scopes : Scopes) : Host W :=
  { host with interpreter := { host.interpreter with scopes } }

variable (host : Host W) (scope : ScopeId) (name : Token) (value : Value)

theorem look_eq :
    host.look scope name =
      .value (match host.interpreter.scopes.get? scope name.lexeme with
        | some found => .ok found
        | none => .error (.undefined name)) := by
  simp only [look, use, perform, Run.within, Interpreter.get]
  cases host.interpreter.scopes.get? scope name.lexeme <;> rfl

theorem exists_look_iff :
    (∃ found, host.look scope name = .value (.ok found)) ↔
      (host.interpreter.scopes.owner? scope name.lexeme).isSome = true := by
  rw [look_eq, Scopes.isSome_owner?]
  cases host.interpreter.scopes.get? scope name.lexeme <;> simp

/-- What is answered after a name has been given a value in some places. -/
theorem look_of_get? {next : Host W} {places : Prop} [Decidable places]
    (seen : next.interpreter.scopes.get? scope name.lexeme =
      if places then some value else host.interpreter.scopes.get? scope name.lexeme) :
    next.look scope name = if places then .value (.ok value) else host.look scope name := by
  rw [look_eq, look_eq, seen]
  by_cases here : places <;> simp only [here, if_true, if_false]

theorem use_assign_of_owner {owner : ScopeId}
    (found : host.interpreter.scopes.owner? scope name.lexeme = some owner) :
    host.use scope (.assign name value) =
      (.done (.ok ()),
        host.withScopes (host.interpreter.scopes.define owner name.lexeme value)) := by
  simp only [use, perform, Run.within, Interpreter.assign, found]
  rfl

theorem use_assign_of_none
    (missing : host.interpreter.scopes.owner? scope name.lexeme = none) :
    host.use scope (.assign name value) = (.done (.error (.undefined name)), host) := by
  simp only [use, perform, Run.within, Interpreter.assign, missing]

/-- After any list of actions, for any two handles and names.

An assignment succeeds exactly if looking the name up does. Then the name has the new value for
those who see it in the same nearest scope, and all else means what it meant; no scope gains or
loses a name. If it fails it says so with the token of the name, and nothing has changed.

A definition gives the name the new value for those who come to the scope before any other that
binds the name, and all else means what it meant. -/
theorem handle_laws (sink : W) (actions : List Action) :
    let host := (start sink).after actions
    let scopes := host.interpreter.scopes
    ∀ scope ∈ host.handles, ∀ other ∈ host.handles, ∀ (name sought : Token) (value : Value),
      let assigned := host.use scope (.assign name value)
      let defined := host.use scope (.define name.lexeme value)
      (assigned.1 = .done (.ok ()) ↔ ∃ found, host.look scope name = .value (.ok found)) ∧
      (assigned.1 = .done (.ok ()) →
        assigned.2.look other sought =
          if sought.lexeme = name.lexeme ∧
            scopes.owner? other name.lexeme = scopes.owner? scope name.lexeme
          then .value (.ok value) else host.look other sought) ∧
      (∀ any bound, (assigned.2.interpreter.scopes.bound? any bound).isSome =
        (scopes.bound? any bound).isSome) ∧
      (assigned.1 ≠ .done (.ok ()) →
        assigned = (.done (.error ⟨.undefinedVariable name.lexeme, name⟩), host)) ∧
      defined.1 = .done (.ok ()) ∧
      defined.2.look other sought =
        if sought.lexeme = name.lexeme ∧ scopes.Reaches other scope name.lexeme
        then .value (.ok value) else host.look other sought := by
  intro host scopes scope member other _ name sought value assigned defined
  have steady : host.Steady := (steady_start sink).after actions
  have looks := host.exists_look_iff scope name
  have definedLook : defined.2.look other sought = _ := host.look_of_get? other sought value
    (Scopes.get?_define (steady.known scope member) other name.lexeme sought.lexeme value)
  cases found : scopes.owner? scope name.lexeme with
  | none =>
    have failed : assigned = _ := host.use_assign_of_none scope name value found
    rw [found] at looks
    rw [failed]
    refine ⟨by simpa using looks, by simp, fun _ _ => rfl, fun _ => rfl, rfl, definedLook⟩
  | some owner =>
    have done : assigned = _ := host.use_assign_of_owner scope name value found
    have bound := (Scopes.owner?_eq_some_iff.mp found).1
    rw [found] at looks
    rw [done]
    refine ⟨by simpa using looks, fun _ => ?_, ?_, by simp, rfl, definedLook⟩
    · have seen := Scopes.get?_overwrite found other sought.lexeme value
      rw [found] at seen
      exact host.look_of_get? other sought value seen
    · exact fun any bound? => Scopes.isSome_bound?_overwrite bound value any bound?

/-- Two scopes inside of one, the second with two handles. What is assigned from the first to a
name of the outer scope is seen from the second; what is defined in the first is not. -/
theorem handle_laws_siblings :
    let a : Token := ⟨.identifier, "a", none, 1⟩
    let actions : List Action := [.use 0 (.define "a" .nil), .use 0 .enclose, .use 0 .enclose,
      .use 2 .share]
    let host := (start Sink.unlimited).after actions
    host.handles = [0, 1, 2, 2] ∧
      (host.use 1 (.assign a (.bool true))).2.look 2 a = .value (.ok (.bool true)) ∧
      (host.use 1 (.define "a" (.bool true))).2.look 2 a = .value (.ok .nil) := by
  intro a actions host
  have handles : host.handles = [0, 1, 2, 2] := rfl
  have member : ∀ scope ∈ [1, 2], scope ∈ host.handles := by
    rw [handles]
    decide
  have seen : ∀ scope ∈ [1, 2], host.look scope a = .value (.ok .nil) := by
    intro scope member
    have bound : host.interpreter.scopes.get? scope "a" = some .nil := by
      revert scope
      decide +kernel
    rw [look_eq, bound]
  have same : host.interpreter.scopes.owner? 2 "a" = host.interpreter.scopes.owner? 1 "a" := by
    decide +kernel
  have apart : ¬ host.interpreter.scopes.Reaches 2 1 "a" := by decide +kernel
  obtain ⟨succeeds, assigned, -, -, -, defined⟩ := handle_laws Sink.unlimited actions 1
    (member 1 (by decide)) 2 (member 2 (by decide)) a a (.bool true)
  have done := succeeds.mpr ⟨.nil, seen 1 (by decide)⟩
  refine ⟨handles, (assigned done).trans (if_pos ⟨rfl, same⟩), defined.trans ?_⟩
  rw [if_neg fun reached => apart reached.2]
  exact seen 2 (by decide)

end BlockScript.Host
