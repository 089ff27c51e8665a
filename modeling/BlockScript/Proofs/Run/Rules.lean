import BlockScript.Run.Semantics

/-!
# Properties that programs inherit

A program is put together from few kinds of computations in few ways. A property that all of these
have, and that every way of putting them together keeps, is one of every program. Such a property
may be about names: those that a computation needs, and the one that it declares for what follows.

## Main results

`Run.ExprRules.eval`: what is true of lookups and assignments and is kept from operand to operand
is true of every expression, with the names that it mentions.
`Run.ProgramRules.execAll`: likewise for lists of statements, with the names that are free in them.
-/

namespace BlockScript

/-! ### Names -/

/-- Where a name counts as mentioned: wherever it is read or assigned, or only where it is
assigned. -/
inductive Mention where
  | any
  | assignment

def Mention.inLookup (name : Token) : Mention → List String
  | any => [name.lexeme]
  | assignment => []

def Expr.mentions (mention : Mention) : Expr → List String
  | assign name value => name.lexeme :: value.mentions mention
  | binary left _ right => left.mentions mention ++ right.mentions mention
  | group inner => inner.mentions mention
  | literal _ => []
  | logical left _ right => left.mentions mention ++ right.mentions mention
  | unary _ operand => operand.mentions mention
  | lookup name => mention.inLookup name

/-- The name that a statement declares for the statements after it. A declaration that is the
branch of an if is not in their list and declares nothing for them. -/
def Stmt.declared? : Stmt → Option String
  | var name _ => some name.lexeme
  | _ => none

mutual

/-- The names that are free in a statement: mentioned where no declaration before, in the same list
of statements or in a list around that, declares them. The initializer of a declaration does not
see the name. -/
def Stmt.free (mention : Mention) : Stmt → List String
  | .block body => Stmt.freeAll mention body
  | .expression value => value.mentions mention
  | .ifThen condition consequent => condition.mentions mention ++ consequent.free mention
  | .ifElse condition consequent alternative =>
    condition.mentions mention ++ (consequent.free mention ++ alternative.free mention)
  | .print _ value => value.mentions mention
  | .var _ none => []
  | .var _ (some initializer) => initializer.mentions mention

def Stmt.freeAll (mention : Mention) : List Stmt → List String
  | [] => []
  | first :: rest =>
    first.free mention ++
      (Stmt.freeAll mention rest).filter (fun name => first.declared? != some name)

end

/-! ### Rules -/

namespace Run

variable {W : Type}

/-- Whether a property is kept when computations are put together as expressions are. It takes the
names that a computation needs. -/
structure ExprRules (mention : Mention)
    (holds : ∀ {α : Type}, List String → Run W α → Prop) : Prop where
  mono : ∀ {α : Type} {needs more : List String} {run : Run W α},
    holds needs run → (∀ name ∈ needs, name ∈ more) → holds more run
  pure : ∀ {α : Type} (value : α), holds [] (Pure.pure value : Run W α)
  lift : ∀ {α : Type} (result : Except RuntimeError α), holds [] (liftM result : Run W α)
  bind : ∀ {α β : Type} {needs : List String} {first : Run W α} {second : α → Run W β},
    holds needs first → (∀ value, holds needs (second value)) → holds needs (first >>= second)
  get : ∀ name, holds (mention.inLookup name) (Interpreter.get name)
  assign : ∀ name value, holds [name.lexeme] (Interpreter.assign name value)

/-- Whether a property is kept when computations are put together as statements are. It takes the
names that a computation needs, and the name that it gives to what follows. -/
structure ProgramRules [Writer W] (mention : Mention)
    (holds : ∀ {α : Type}, List String → Option String → Run W α → Prop) : Prop where
  mono : ∀ {α : Type} {needs more : List String} {gives : Option String} {run : Run W α},
    holds needs gives run → (∀ name ∈ needs, name ∈ more) → holds more gives run
  forget : ∀ {α : Type} {needs : List String} {gives : Option String} {run : Run W α},
    holds needs gives run → holds needs none run
  pure : ∀ {α : Type} (value : α), holds [] none (Pure.pure value : Run W α)
  lift : ∀ {α : Type} (result : Except RuntimeError α), holds [] none (liftM result : Run W α)
  /-- What follows may need what the first computation needs, and the name that it gives. -/
  bind : ∀ {α β : Type} {needs : List String} {between gives : Option String} {first : Run W α}
    {second : α → Run W β}, holds needs between first → ∀ after : List String,
    (∀ value, holds after gives (second value)) →
    (∀ name ∈ after, name ∈ needs ∨ between = some name) → holds needs gives (first >>= second)
  inBlock : ∀ {α : Type} {needs : List String} {gives : Option String} {body : Run W α},
    holds needs gives body → holds needs none (Run.inBlock body)
  get : ∀ name, holds (mention.inLookup name) none (Interpreter.get name)
  assign : ∀ name value, holds [name.lexeme] none (Interpreter.assign name value)
  define : ∀ name value, holds [] (some name) (Interpreter.define name value)
  print : ∀ keyword value, holds [] none (Interpreter.print keyword value)

section

variable {mention : Mention} {holds : ∀ {α : Type}, List String → Run W α → Prop}

theorem ExprRules.eval (rules : ExprRules mention holds) (expr : Expr) :
    holds (expr.mentions mention) expr.eval := by
  induction expr with
  | assign name value ih =>
    have inner : holds ((Expr.assign name value).mentions mention) value.eval :=
      rules.mono ih fun _ => List.mem_cons_of_mem _
    refine rules.bind inner fun found => rules.bind ?_ fun _ => ?_
    · exact rules.mono (rules.assign name found) (by simp [Expr.mentions])
    · exact rules.mono (rules.pure found) (by simp)
  | binary left operator right ihLeft ihRight =>
    refine rules.bind (rules.mono ihLeft fun _ => List.mem_append_left _) fun _ => ?_
    refine rules.bind (rules.mono ihRight fun _ => List.mem_append_right _) fun _ => ?_
    exact rules.mono (rules.lift _) (by simp)
  | group inner ih => exact ih
  | literal value => exact rules.pure value
  | logical left operator right ihLeft ihRight =>
    refine rules.bind (rules.mono ihLeft fun _ => List.mem_append_left _) fun value => ?_
    -- The value on the left decides whether the right side is evaluated at all.
    split
    · exact rules.mono (rules.pure value) (by simp)
    · exact rules.mono ihRight fun _ => List.mem_append_right _
  | unary operator operand ih =>
    exact rules.bind ih fun _ => rules.mono (rules.lift _) (by simp)
  | lookup name => exact rules.get name

end

variable [Writer W] {mention : Mention}
  {holds : ∀ {α : Type}, List String → Option String → Run W α → Prop}

theorem ProgramRules.exprRules (rules : ProgramRules mention holds) :
    ExprRules mention fun needs run => holds needs none run where
  mono := rules.mono
  pure := rules.pure
  lift := rules.lift
  bind {_ _ needs _ _} first second := rules.bind first needs second fun _ => .inl
  get := rules.get
  assign := rules.assign

mutual

theorem ProgramRules.exec (rules : ProgramRules mention holds) (stmt : Stmt) :
    holds (stmt.free mention) stmt.declared? stmt.exec := by
  have eval (expr : Expr) := rules.exprRules.eval expr
  cases stmt with
  | block body => exact rules.inBlock (rules.execAll body)
  | expression value => exact rules.bind (eval value) [] (fun _ => rules.pure ()) (by simp)
  | ifThen condition consequent =>
    refine rules.bind (rules.mono (eval condition) fun _ => List.mem_append_left _)
      (consequent.free mention) (fun chosen => ?_)
      fun _ member => .inl (List.mem_append_right _ member)
    split
    · exact rules.forget (rules.exec consequent)
    · exact rules.mono (rules.pure ()) (by simp)
  | ifElse condition consequent alternative =>
    refine rules.bind (rules.mono (eval condition) fun _ => List.mem_append_left _)
      (consequent.free mention ++ alternative.free mention) (fun chosen => ?_)
      fun _ member => .inl (List.mem_append_right _ member)
    split
    · exact rules.mono (rules.forget (rules.exec consequent)) fun _ => List.mem_append_left _
    · exact rules.mono (rules.forget (rules.exec alternative)) fun _ => List.mem_append_right _
  | print keyword value =>
    exact rules.bind (eval value) [] (fun found => rules.print keyword found) (by simp)
  | var name initializer =>
    cases initializer with
    | none => exact rules.define name.lexeme .nil
    | some initializer =>
      exact rules.bind (eval initializer) [] (fun found => rules.define name.lexeme found)
        (by simp)

/-- What a statement mentions is free in the list, or a statement before it has declared it. -/
theorem ProgramRules.execAll (rules : ProgramRules mention holds) (stmts : List Stmt) :
    holds (Stmt.freeAll mention stmts) none (Stmt.execAll stmts) := by
  cases stmts with
  | nil => exact rules.pure ()
  | cons first rest =>
    refine rules.bind (rules.mono (rules.exec first) fun _ => List.mem_append_left _)
      (Stmt.freeAll mention rest) (fun _ => rules.execAll rest) fun name member => ?_
    by_cases declared : first.declared? = some name
    · exact .inr declared
    · refine .inl (List.mem_append_right _ (List.mem_filter.mpr ⟨member, ?_⟩))
      simpa using declared

end

end Run
end BlockScript
