import BlockScript.Proofs.Run.Frame
import BlockScript.Proofs.Scope.Renaming

/-!
# The name of a local variable

## Main results

`Interpreter.interpret_rename`: a block that begins with a declaration does the same if the
declared name is spelled differently throughout the block, by a name that does not occur behind
the declaration.

## Proof strategy

1. Inside of the block the newer scopes spell the name anew, and one of them binds it. So every
   name is found in the same scope by both runs, with the same value (`Interpreter.Respelled`).
2. A computation and the renamed one come to the same result side by side, in states that differ
   in the spelling only (`Run.Corresponds`). They are put together as programs are.
3. The initializer is evaluated before the spellings differ, and when the block is left, the scope
   is gone in which they did.
-/

namespace BlockScript

variable {W : Type}

/-- The token with another lexeme, if its lexeme is `old`. -/
def Token.respelled (old new : String) (token : Token) : Token :=
  if token.lexeme = old then { token with lexeme := new } else token

def Expr.rename (old new : String) : Expr → Expr
  | .assign name value => .assign (name.respelled old new) (value.rename old new)
  | .binary left operator right => .binary (left.rename old new) operator (right.rename old new)
  | .group inner => .group (inner.rename old new)
  | .literal value => .literal value
  | .logical left operator right => .logical (left.rename old new) operator (right.rename old new)
  | .unary operator operand => .unary operator (operand.rename old new)
  | .lookup name => .lookup (name.respelled old new)

mutual

/-- The statement with a name spelled anew wherever it is read, assigned or declared. -/
def Stmt.rename (old new : String) : Stmt → Stmt
  | .block body => .block (Stmt.renameAll old new body)
  | .expression value => .expression (value.rename old new)
  | .ifThen condition consequent =>
    .ifThen (condition.rename old new) (consequent.rename old new)
  | .ifElse condition consequent alternative =>
    .ifElse (condition.rename old new) (consequent.rename old new) (alternative.rename old new)
  | .print keyword value => .print keyword (value.rename old new)
  | .var name none => .var (name.respelled old new) none
  | .var name (some initializer) =>
    .var (name.respelled old new) (some (initializer.rename old new))

def Stmt.renameAll (old new : String) : List Stmt → List Stmt
  | [] => []
  | first :: rest => first.rename old new :: Stmt.renameAll old new rest

end

mutual

/-- The names that a statement reads, assigns or declares, at any depth. -/
def Stmt.names : Stmt → List String
  | .block body => Stmt.allNames body
  | .expression value => value.mentions .any
  | .ifThen condition consequent => condition.mentions .any ++ consequent.names
  | .ifElse condition consequent alternative =>
    condition.mentions .any ++ (consequent.names ++ alternative.names)
  | .print _ value => value.mentions .any
  | .var name none => [name.lexeme]
  | .var name (some initializer) => name.lexeme :: initializer.mentions .any

def Stmt.allNames : List Stmt → List String
  | [] => []
  | first :: rest => first.names ++ Stmt.allNames rest

end

variable {old new : String}

theorem Token.lexeme_respelled (old new : String) (token : Token) :
    (token.respelled old new).lexeme = respell old new token.lexeme := by
  unfold respelled respell
  split <;> rfl

theorem Token.respelled_of_ne {token : Token} (other : token.lexeme ≠ old) :
    token.respelled old new = token :=
  if_neg other

/-! ### States that differ in the spelling -/

namespace Interpreter

/-- Whether two runs that have come into blocks from `entry` are in states that differ only in how
the newer scopes spell a name, which one of these scopes binds. -/
structure Respelled (old new : String) (entry : Interpreter W) (inner : List ScopeId)
    (one other : Interpreter W) : Prop where
  within : one.Within entry inner
  binds : one.Binds inner old
  scopes : one.scopes.Respelled old new entry.scopes.size other.scopes
  current : other.current = one.current
  sink : other.sink = one.sink

namespace Respelled

variable {entry one other last last' : Interpreter W} {inner : List ScopeId} {name : String}

theorem of_keeps (related : Respelled old new entry inner one other) (kept : KeepsNames one last)
    (scopes : last.scopes.Respelled old new entry.scopes.size last'.scopes)
    (current : last'.current = last.current) (sink : last'.sink = last.sink) :
    Respelled old new entry inner last last' where
  within := related.within.of_keeps kept
  binds := related.binds.of_keeps related.within kept
  scopes := scopes
  current := current
  sink := sink

theorem enterBlock (related : Respelled old new entry inner one other) :
    Respelled old new entry (one.scopes.size :: inner) one.enterBlock other.enterBlock where
  within := related.within.enterBlock
  binds := related.binds.enterBlock
  scopes := by
    have same : other.scopes.chain other.current = one.scopes.chain one.current := by
      rw [Scopes.chain_congr related.scopes.links, related.current]
    change (one.scopes.push _).Respelled old new _ (other.scopes.push _)
    rw [same]
    exact related.scopes.push _
  current := related.scopes.size_eq
  sink := related.sink

/-- Both runs find a name in the same scope. -/
theorem owner?_eq (related : Respelled old new entry inner one other) (apart : name ≠ new) :
    other.scopes.owner? other.current (respell old new name) =
        one.scopes.owner? one.current name ∧
      ∀ owner, one.scopes.owner? one.current name = some owner →
        entry.scopes.size ≤ owner ∨ name ≠ old := by
  rw [related.current]
  exact related.scopes.owner?_eq related.within.chain related.within.recent related.binds apart

/-- Both runs find the same value. -/
theorem get?_eq (related : Respelled old new entry inner one other) (apart : name ≠ new) :
    other.scopes.get? other.current (respell old new name) =
      one.scopes.get? one.current name := by
  obtain ⟨same, spelled⟩ := related.owner?_eq apart
  rw [Scopes.get?_eq_bind_owner?, Scopes.get?_eq_bind_owner?, same]
  cases found : one.scopes.owner? one.current name with
  | none => rfl
  -- An older owner is reached by names other than `old` only, and these keep their spelling.
  | some owner => exact related.scopes.bound?_eq apart (spelled owner found)

/-- An unknown name keeps its spelling. -/
theorem ne_of_unknown (related : Respelled old new entry inner one other)
    (unknown : one.scopes.owner? one.current name = none) : name ≠ old := by
  rintro rfl
  obtain ⟨scope, member, bound⟩ := related.binds
  rw [Scopes.owner?, List.find?_eq_none, related.within.chain] at unknown
  exact unknown scope (List.mem_append_left _ member) bound

end Respelled

end Interpreter

/-! ### Computations side by side -/

namespace Run

open Interpreter

variable {α β : Type}

/-- Whether two computations, one for each spelling, end in the same way and in states that differ
in the spelling only. -/
def Corresponds (old new : String) (run renamed : Run W α) : Prop :=
  ∀ ⦃entry one other : Interpreter W⦄ ⦃inner : List ScopeId⦄,
    Respelled old new entry inner one other →
      (renamed other).1 = (run one).1 ∧
        Respelled old new entry inner (run one).2 (renamed other).2

variable {run renamed : Run W α}

theorem corresponds_pure (value : α) :
    (pure value : Run W α).Corresponds old new (pure value) :=
  fun _ _ _ _ related => ⟨rfl, related⟩

theorem corresponds_lift (result : Except RuntimeError α) :
    (liftM result : Run W α).Corresponds old new (liftM result) :=
  fun _ _ _ _ related => ⟨rfl, related⟩

theorem Corresponds.bind {next renamedNext : α → Run W β}
    (corresponds : run.Corresponds old new renamed)
    (correspondsNext : ∀ value, (next value).Corresponds old new (renamedNext value)) :
    (run >>= next).Corresponds old new (renamed >>= renamedNext) := by
  intro entry one other inner related
  obtain ⟨same, between⟩ := corresponds related
  rw [bind_apply, bind_apply]
  revert same between
  rcases run one with ⟨result, first⟩
  rcases renamed other with ⟨result', second⟩
  intro same between
  obtain rfl : result' = result := same
  cases result' with
  | error error => exact ⟨rfl, between⟩
  | ok value => exact correspondsNext value between

variable [Writer W]

theorem Corresponds.inBlock (corresponds : run.Corresponds old new renamed)
    (keeps : run.Respects KeepsNames) :
    (Run.inBlock run).Corresponds old new (Run.inBlock renamed) := by
  intro entry one other inner related
  obtain ⟨same, inside⟩ := corresponds related.enterBlock
  -- The scope that binds the name is outside of this block, so leaving it takes nothing away.
  refine ⟨same, related.of_keeps (keepsNames.inBlock keeps one) ?_ related.current inside.sink⟩
  exact inside.scopes.pop

end Run

namespace Interpreter

open Run

theorem corresponds_get {name : Token} (apart : name.lexeme ≠ new) :
    (get name : Run W Value).Corresponds old new (get (name.respelled old new)) := by
  intro entry one other inner related
  unfold get
  rw [Token.lexeme_respelled, related.get?_eq apart]
  cases found : one.scopes.get? one.current name.lexeme with
  | some value => exact ⟨rfl, related⟩
  | none =>
    -- The error is blamed on the token, which is the same in both programs.
    have unknown : one.scopes.owner? one.current name.lexeme = none := by
      rw [← Option.isNone_iff_eq_none, ← Option.not_isSome, Scopes.isSome_owner?, found]
      rfl
    rw [Token.respelled_of_ne (related.ne_of_unknown unknown)]
    exact ⟨rfl, related⟩

variable [Writer W]

theorem corresponds_assign {name : Token} (apart : name.lexeme ≠ new) (value : Value) :
    (assign name value : Run W Unit).Corresponds old new
      (assign (name.respelled old new) value) := by
  intro entry one other inner related
  obtain ⟨same, spelled⟩ := related.owner?_eq apart
  have kept := keepsNames.assign name value one
  unfold assign at kept ⊢
  rw [Token.lexeme_respelled, same]
  cases found : one.scopes.owner? one.current name.lexeme with
  | some owner =>
    rw [found] at kept
    refine ⟨rfl, related.of_keeps kept ?_ related.current related.sink⟩
    exact related.scopes.define apart (spelled owner found) value
  | none =>
    rw [Token.respelled_of_ne (related.ne_of_unknown found)]
    exact ⟨rfl, related⟩

theorem corresponds_define {name : Token} (apart : name.lexeme ≠ new) (value : Value) :
    (define name.lexeme value : Run W Unit).Corresponds old new
      (define (name.respelled old new).lexeme value) := by
  intro entry one other inner related
  have kept := keepsNames.bindName name.lexeme value one
  refine ⟨rfl, related.of_keeps kept ?_ related.current related.sink⟩
  have newer := related.within.recent one.current related.within.current
  change (one.scopes.define one.current _ _).Respelled old new _
    (other.scopes.define other.current _ _)
  rw [Token.lexeme_respelled, related.current]
  exact related.scopes.define apart (.inl newer) value

theorem corresponds_print (keyword : Token) (value : Value) :
    (print keyword value : Run W Unit).Corresponds old new (print keyword value) := by
  intro entry one other inner related
  have kept := keepsNames.print keyword value one
  unfold print at kept ⊢
  rw [related.sink]
  revert kept
  rcases Writer.write one.sink (value.text ++ "\n").toUTF8 with ⟨_ | _, sink⟩
  all_goals exact fun kept => ⟨rfl, related.of_keeps kept related.scopes related.current rfl⟩

end Interpreter

/-! ### Programs -/

open Run Interpreter

section

variable [Writer W]

theorem Expr.eval_rename (expr : Expr) (apart : new ∉ expr.mentions .any) :
    (expr.eval : Run W Value).Corresponds old new (expr.rename old new).eval := by
  induction expr with
  | assign name value ih =>
    rw [mentions, List.mem_cons, not_or] at apart
    exact (ih apart.2).bind fun value =>
      (corresponds_assign (Ne.symm apart.1) value).bind fun _ => corresponds_pure value
  | binary left operator right ihLeft ihRight =>
    rw [mentions, List.mem_append, not_or] at apart
    exact (ihLeft apart.1).bind fun _ => (ihRight apart.2).bind fun _ => corresponds_lift _
  | group inner ih => exact ih apart
  | literal value => exact corresponds_pure value
  | logical left operator right ihLeft ihRight =>
    rw [mentions, List.mem_append, not_or] at apart
    refine (ihLeft apart.1).bind fun value => ?_
    split
    · exact corresponds_pure value
    · exact ihRight apart.2
  | unary operator operand ih => exact (ih apart).bind fun _ => corresponds_lift _
  | lookup name => exact corresponds_get (Ne.symm (List.ne_of_not_mem_cons apart))

mutual

theorem Stmt.exec_rename (stmt : Stmt) (apart : new ∉ stmt.names) :
    (stmt.exec : Run W Unit).Corresponds old new (stmt.rename old new).exec := by
  cases stmt with
  | block body =>
    exact (execAll_rename body apart).inBlock (execAll_respects keepsNames body)
  | expression value => exact (value.eval_rename apart).bind fun _ => corresponds_pure ()
  | ifThen condition consequent =>
    rw [names, List.mem_append, not_or] at apart
    refine (condition.eval_rename apart.1).bind fun chosen => ?_
    split
    · exact exec_rename consequent apart.2
    · exact corresponds_pure ()
  | ifElse condition consequent alternative =>
    rw [names, List.mem_append, List.mem_append, not_or, not_or] at apart
    refine (condition.eval_rename apart.1).bind fun chosen => ?_
    split
    · exact exec_rename consequent apart.2.1
    · exact exec_rename alternative apart.2.2
  | print keyword value =>
    exact (value.eval_rename apart).bind fun found => corresponds_print keyword found
  | var name initializer =>
    cases initializer with
    | none => exact corresponds_define (Ne.symm (List.ne_of_not_mem_cons apart)) .nil
    | some initializer =>
      rw [names, List.mem_cons, not_or] at apart
      exact (initializer.eval_rename apart.2).bind fun found =>
        corresponds_define (Ne.symm apart.1) found

/-- A program in which a name is spelled anew does the same, in states that spell it likewise. -/
theorem Stmt.execAll_rename (stmts : List Stmt) (apart : new ∉ allNames stmts) :
    (execAll stmts : Run W Unit).Corresponds old new (execAll (renameAll old new stmts)) := by
  cases stmts with
  | nil => exact corresponds_pure ()
  | cons first rest =>
    rw [allNames, List.mem_append, not_or] at apart
    exact (exec_rename first apart.1).bind fun _ => execAll_rename rest apart.2

end

end

/-! ### Main theorem -/

namespace Interpreter

/-- Two runs that differ in the spelling are the same when the block is left. -/
theorem Respelled.leaveBlock {state one other : Interpreter W}
    (related : Respelled old new state [state.scopes.size] one other)
    (kept : KeepsNames state.enterBlock one) :
    other.leaveBlock state.current = one.leaveBlock state.current := by
  unfold Interpreter.leaveBlock
  rw [related.scopes.pop_eq kept.place.size_inside, related.sink]

variable [Writer W]

/-- The scope that a block has entered binds the one name or the other. -/
theorem respelled_withBinding {state between : Interpreter W}
    (kept : KeepsNames state.enterBlock between) (old new : String) (value : Value) :
    Respelled old new state [state.scopes.size] (between.withBinding old value)
      (between.withBinding new value) := by
  have within := (within_enterBlock state).of_keeps kept
  have here : between.current = state.scopes.size := List.mem_singleton.mp within.current
  refine ⟨within.of_keeps (keepsNames.bindName old value between), within.binds_define old value,
    ?_, rfl, rfl⟩
  change (between.scopes.define between.current old value).Respelled old new _
    (between.scopes.define between.current new value)
  rw [here]
  exact Scopes.respelled_define kept.place.size_inside old new value

/-- What follows the initializer of the declaration does the same in both spellings. -/
theorem leaveBlock_rename {state between : Interpreter W} {body : List Stmt}
    (kept : KeepsNames state.enterBlock between) (old : String) (apart : new ∉ Stmt.allNames body)
    (value : Value) :
    let one := Stmt.execAll body (between.withBinding old value)
    let other := Stmt.execAll (Stmt.renameAll old new body) (between.withBinding new value)
    (other.1, other.2.leaveBlock state.current) = (one.1, one.2.leaveBlock state.current) := by
  intro one other
  obtain ⟨same, related⟩ :=
    Stmt.execAll_rename body apart (respelled_withBinding kept old new value)
  have bound := keepsNames.trans kept (keepsNames.bindName old value between)
  have last := keepsNames.trans bound (Stmt.execAll_respects keepsNames body _)
  exact Prod.ext same (related.leaveBlock last)

/-- The name that a block declares first can be spelled differently in the block, by a name that
does not occur behind the declaration: from every state the same is written, the run ends in the
same way, and it leaves the same scopes. The initializer keeps its names, as it is not in the scope
of the declaration. -/
theorem interpret_rename {declared fresh : Token} (initializer : Option Expr) {body : List Stmt}
    (apart : fresh.lexeme ∉ Stmt.allNames body) (state : Interpreter W) :
    interpret [.block (.var fresh initializer ::
        Stmt.renameAll declared.lexeme fresh.lexeme body)] state =
      interpret [.block (.var declared initializer :: body)] state := by
  rw [interpret_block, interpret_block]
  simp only [Run.inBlock, Stmt.execAll, bind_apply]
  -- Up to the declaration both runs are one; an error in the initializer ends both.
  cases initializer with
  | none => exact leaveBlock_rename (keepsNames.refl _) declared.lexeme apart .nil
  | some initializer =>
    have kept := initializer.eval_respects keepsNames state.enterBlock
    simp only [Stmt.exec, bind_apply]
    revert kept
    rcases initializer.eval state.enterBlock with ⟨_ | value, between⟩
    · exact fun _ => rfl
    · exact fun kept => leaveBlock_rename kept declared.lexeme apart value

/-- A local variable that begins as the global of its name, that an inner block declares again, and
whose last assignment is stopped by an unknown name. -/
theorem interpret_rename_shadowed :
    let name (lexeme : String) : Token := ⟨.identifier, lexeme, none, 1⟩
    let body := (parse "print a; { var a = b; a = nil; } a = c;").program
    let renamed := Stmt.renameAll "a" "z" body
    let globals := (Scopes.empty.create.define 0 "a" (.bool true)).define 0 "b" .nil
    let state : Interpreter Sink := ⟨globals, 0, .unlimited⟩
    let initializer := some (.lookup (name "a"))
    Program.text renamed = "print z;\n\x7b var z = b; z = nil; \x7d\nz = c;\n" ∧
      interpret [.block (.var (name "z") initializer :: renamed)] state =
        interpret [.block (.var (name "a") initializer :: body)] state := by
  intro name body renamed globals state initializer
  have text : Program.text renamed = "print z;\n\x7b var z = b; z = nil; \x7d\nz = c;\n" := by
    decide +kernel
  have apart : (name "z").lexeme ∉ Stmt.allNames body := by decide +kernel
  exact ⟨text, @interpret_rename Sink _ (name "a") (name "z") initializer body apart state⟩

end Interpreter

end BlockScript
