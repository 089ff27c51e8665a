import BlockScript.Proofs.Descent.Parser

/-!
# How the cursor of a descent moves

## Main definitions

`Alike`: a list is the text of some tokens, the mark behind it, and anything behind the mark.
`Walk.Ends`, `Parser.Ends`: with enough fuel a part of a descent ends, and in the same way on all
lists that are alike. One of them has nothing behind the mark, so it never looks there.

## Proof strategy

A cursor that is not behind the mark has a token to look at, and it is at the mark exactly when
nothing of the text is left. From this follows what each of the functions that look or move does
(`peek_eq` to `expect_of_ne`), and from those and the rules for `Ends` the rest.
-/

namespace BlockScript.Descent

open Parse Grammar

/-! ### The list -/

section

variable (tokens : List Token)

/-- Whether a list is the text of the tokens, the mark behind it, and whatever else. -/
def Alike (list : List Token) : Prop :=
  ∃ after, list = text tokens ++ endMark tokens :: after

/-- The place of the mark behind the text. -/
def limit : Nat :=
  (text tokens).length

def unread (place : Nat) : List Token :=
  (text tokens).drop place

/-- The token at a place of the text, or else the mark behind the text. -/
def front (place : Nat) : Token :=
  (unread tokens place).headD (endMark tokens)

theorem alike_looksAt : Alike tokens (looksAt tokens) :=
  ⟨[], rfl⟩

theorem alike_marked : Alike tokens (marked tokens) := by
  cases found : tokens.find? Token.isEnd with
  | some mark =>
    obtain ⟨ends, before, after, rfl, plain⟩ := List.find?_eq_some_iff_append.mp found
    obtain ⟨sameText, sameMark⟩ := text_mark (by simpa using plain) ends after
    rw [Alike, sameText, sameMark, marked]
    split
    · exact ⟨after, rfl⟩
    · exact ⟨_, List.append_assoc _ _ _⟩
  | none =>
    have plain : ∀ token ∈ tokens, token.isEnd = false := by
      simpa using List.find?_eq_none.mp found
    have whole : text tokens = tokens := by
      simpa [text] using text_append plain []
    have noMark : tokens.getLast?.map Token.isEnd ≠ some true := by
      intro marks
      obtain ⟨last, isLast, ends⟩ := Option.map_eq_some_iff.mp marks
      rw [plain last (List.mem_of_getLast? isLast)] at ends
      cases ends
    rw [marked, if_neg noMark, Alike, whole, endMark, found]
    exact ⟨[], rfl⟩

theorem unread_of_lt {place : Nat} (inside : place < limit tokens) :
    unread tokens place = front tokens place :: unread tokens (place + 1) := by
  rw [front, unread, unread, List.drop_eq_getElem_cons inside]
  rfl

theorem unread_of_ge {place : Nat} (outside : limit tokens ≤ place) : unread tokens place = [] :=
  List.drop_eq_nil_of_le outside

theorem front_of_ge {place : Nat} (outside : limit tokens ≤ place) :
    front tokens place = endMark tokens := by
  rw [front, unread_of_ge tokens outside]
  rfl

theorem isEnd_front (place : Nat) : (front tokens place).isEnd = decide (limit tokens ≤ place) := by
  by_cases inside : place < limit tokens
  · have member : front tokens place ∈ text tokens := by
      refine List.mem_of_mem_drop (i := place) ?_
      rw [← unread, unread_of_lt tokens inside]
      exact List.mem_cons_self
    rw [plain_text tokens _ member]
    simpa using inside
  · rw [front_of_ge tokens (Nat.le_of_not_lt inside), isEnd_endMark]
    simpa using inside

/-- No token but the mark is found at the end of the text. -/
theorem lt_limit_of_kind {place : Nat} (plain : (front tokens place).kind ≠ .endOfInput) :
    place < limit tokens := by
  by_contra outside
  have ends := isEnd_front tokens place
  rw [decide_eq_true (Nat.le_of_not_lt outside)] at ends
  exact plain (by simpa [Token.isEnd] using ends)

end

/-! ### Going on -/

section

variable {α β : Type} {start next : Descent} {value : α}

theorem Walk.bind_eq {first : Walk α} (second : α → Walk β)
    (found : first start = some (value, next)) : (first >>= second) start = second value next := by
  change (first start).bind (fun found => second found.1 found.2) = _
  rw [found]
  rfl

theorem Parser.bind_ok {first : Parser α} (second : α → Parser β)
    (found : first start = some (.ok value, next)) :
    (first >>= second) start = second value next :=
  Walk.bind_eq (ExceptT.bindCont second) found

theorem Parser.bind_error {first : Parser α} (second : α → Parser β) {error : Error}
    (found : first start = some (.error error, next)) :
    (first >>= second) start = some (.error error, next) :=
  Walk.bind_eq (ExceptT.bindCont second) found

theorem Parser.lift_eq {walk : Walk α} (found : walk start = some (value, next)) :
    (liftM walk : Parser α) start = some (.ok value, next) :=
  Walk.bind_eq (fun value => pure (Except.ok value)) found

end

/-! ### Ending -/

/-- Whether a part of a descent comes from one place to another with a value, on every list that is
alike. -/
def Walk.Does {α : Type} (tokens : List Token) (walk : List Token → Walk α) (start : Descent)
    (value : α) (next : Descent) : Prop :=
  ∀ list, Alike tokens list → walk list start = some (value, next)

/-- Whether a walk ends with a result and a descent that are as they should be. With more fuel than
it takes it ends with the same. -/
def Walk.Ends {α : Type} (tokens : List Token) (walk : List Token → Nat → Walk α)
    (start : Descent) (post : α → Descent → Prop) : Prop :=
  ∃ result next, post result next ∧
    ∃ enough, ∀ fuel, enough ≤ fuel → Walk.Does tokens (walk · fuel) start result next

/-- Whether a parser comes to a value or to an error. -/
def Parser.Does {α : Type} (tokens : List Token) (parser : List Token → Parser α) (start : Descent)
    (result : Except Error α) (next : Descent) : Prop :=
  Walk.Does tokens (fun list => (parser list).run) start result next

def Parser.Ends {α : Type} (tokens : List Token) (parser : List Token → Nat → Parser α)
    (start : Descent) (ok : α → Descent → Prop) (fails : Error → Descent → Prop) : Prop :=
  Walk.Ends tokens (fun list fuel => (parser list fuel).run) start fun
    | .ok value => ok value
    | .error error => fails error

section

variable {α β : Type} {tokens : List Token} {start next : Descent} {value : α}

namespace Walk

variable {walk : List Token → Nat → Walk α} {constant : List Token → Walk α}
  {rest : List Token → Nat → α → Walk β} {middle : α → Descent → Prop}
  {post : β → Descent → Prop}

theorem Ends.of_eq {constant : List Token → Walk β} {result : β}
    (found : Does tokens constant start result next) (holds : post result next) :
    Ends tokens (fun list _ => constant list) start post :=
  ⟨result, next, holds, 0, fun _ _ => found⟩

theorem Ends.of_pure {result : β} (holds : post result start) :
    Ends tokens (fun _ _ => pure result) start post :=
  Ends.of_eq (fun _ _ => rfl) holds

/-- Whatever is done with one more unit of fuel is done with fuel. -/
theorem Ends.of_succ {walk : List Token → Nat → Walk β}
    (ends : Ends tokens (fun list fuel => walk list (fuel + 1)) start post) :
    Ends tokens walk start post := by
  obtain ⟨result, next, holds, enough, found⟩ := ends
  refine ⟨result, next, holds, enough + 1, fun fuel more => ?_⟩
  obtain ⟨less, rfl⟩ := Nat.exists_eq_add_of_le' more
  exact found (less + enough) (Nat.le_add_left _ _)

theorem Ends.bind (first : Ends tokens walk start middle)
    (second : ∀ value next, middle value next →
      Ends tokens (fun list fuel => rest list fuel value) next post) :
    Ends tokens (fun list fuel => walk list fuel >>= rest list fuel) start post := by
  obtain ⟨value, between, holds, enough, found⟩ := first
  obtain ⟨result, next, holdsNow, enoughNow, foundNow⟩ := second value between holds
  refine ⟨result, next, holdsNow, max enough enoughNow, fun fuel more list alike => ?_⟩
  have foundFirst := found fuel (le_trans (le_max_left _ _) more) list alike
  exact (Walk.bind_eq (rest list fuel) foundFirst).trans
    (foundNow fuel (le_trans (le_max_right _ _) more) list alike)

theorem Ends.after (found : Does tokens constant start value next)
    (second : Ends tokens (fun list fuel => rest list fuel value) next post) :
    Ends tokens (fun list fuel => constant list >>= rest list fuel) start post := by
  obtain ⟨result, last, holds, enough, ends⟩ := second
  refine ⟨result, last, holds, enough, fun fuel more list alike => ?_⟩
  exact (Walk.bind_eq (rest list fuel) (found list alike)).trans (ends fuel more list alike)

theorem Ends.mono {walk : List Token → Nat → Walk β} {weaker : β → Descent → Prop}
    (ends : Ends tokens walk start post)
    (weakens : ∀ value next, post value next → weaker value next) :
    Ends tokens walk start weaker := by
  obtain ⟨result, next, holds, found⟩ := ends
  exact ⟨result, next, weakens result next holds, found⟩

end Walk

namespace Parser

variable {parser : List Token → Nat → Parser α} {constant : List Token → Parser α}
  {rest : List Token → Nat → α → Parser β} {middle : α → Descent → Prop}
  {failsFirst : Error → Descent → Prop} {ok : β → Descent → Prop} {fails : Error → Descent → Prop}

theorem Ends.of_ok {constant : List Token → Parser β} {result : β}
    (found : Does tokens constant start (.ok result) next) (holds : ok result next) :
    Ends tokens (fun list _ => constant list) start ok fails :=
  Walk.Ends.of_eq found holds

theorem Ends.of_error {constant : List Token → Parser β} {error : Error}
    (found : Does tokens constant start (.error error) next) (holds : fails error next) :
    Ends tokens (fun list _ => constant list) start ok fails :=
  Walk.Ends.of_eq found holds

/-- A parser that returns at once leaves the descent as it is. -/
theorem Ends.of_pure {result : β} (holds : ok result start) :
    Ends tokens (fun _ _ => pure result) start ok fails :=
  Ends.of_ok (fun _ _ => rfl) holds

/-- So does one that only raises an error. -/
theorem Ends.of_throw {error : Error} (holds : fails error start) :
    Ends tokens (fun _ _ => throw error) start ok fails :=
  Ends.of_error (fun _ _ => rfl) holds

theorem Ends.of_succ {parser : List Token → Nat → Parser β}
    (ends : Ends tokens (fun list fuel => parser list (fuel + 1)) start ok fails) :
    Ends tokens parser start ok fails :=
  Walk.Ends.of_succ ends

theorem Ends.bind (first : Ends tokens parser start middle failsFirst)
    (second : ∀ value next, middle value next →
      Ends tokens (fun list fuel => rest list fuel value) next ok fails)
    (unwinds : ∀ error next, failsFirst error next → fails error next) :
    Ends tokens (fun list fuel => parser list fuel >>= rest list fuel) start ok fails := by
  refine @Walk.Ends.bind _ _ _ _ _ (fun list fuel => ExceptT.bindCont (rest list fuel)) _ _ first ?_
  intro result next holds
  cases result with
  | ok value => exact second value next holds
  | error error => exact Walk.Ends.of_eq (fun _ _ => rfl) (unwinds error next holds)

theorem Ends.bind_walk {walk : List Token → Nat → Walk α}
    (first : Walk.Ends tokens walk start middle)
    (second : ∀ value next, middle value next →
      Ends tokens (fun list fuel => rest list fuel value) next ok fails) :
    Ends tokens (fun list fuel => (liftM (walk list fuel) : Parser α) >>= rest list fuel) start ok
      fails := by
  have lifted : Ends tokens (fun list fuel => (liftM (walk list fuel) : Parser α)) start middle
      fun _ _ => False := by
    obtain ⟨value, next, holds, enough, found⟩ := first
    exact ⟨.ok value, next, holds, enough, fun fuel more list alike =>
      Parser.lift_eq (found fuel more list alike)⟩
  exact lifted.bind second fun _ _ => False.elim

theorem Ends.after (found : Does tokens constant start (.ok value) next)
    (second : Ends tokens (fun list fuel => rest list fuel value) next ok fails) :
    Ends tokens (fun list fuel => constant list >>= rest list fuel) start ok fails :=
  @Walk.Ends.after _ _ _ _ _ _ _ (fun list fuel => ExceptT.bindCont (rest list fuel)) _ found second

theorem Ends.after_walk {constant : List Token → Walk α}
    (found : Walk.Does tokens constant start value next)
    (second : Ends tokens (fun list fuel => rest list fuel value) next ok fails) :
    Ends tokens (fun list fuel => (liftM (constant list) : Parser α) >>= rest list fuel) start ok
      fails :=
  Ends.after (fun list alike => Parser.lift_eq (found list alike)) second

theorem Ends.unwind {error : Error} (found : Does tokens constant start (.error error) next)
    (holds : fails error next) :
    Ends tokens (fun list fuel => constant list >>= rest list fuel) start ok fails :=
  ⟨.error error, next, holds, 0, fun fuel _ list alike =>
    Parser.bind_error (rest list fuel) (found list alike)⟩

theorem Ends.mono {parser : List Token → Nat → Parser β} {okWeaker : β → Descent → Prop}
    {failsWeaker : Error → Descent → Prop} (ends : Ends tokens parser start ok fails)
    (weakens : ∀ value next, ok value next → okWeaker value next)
    (weakensError : ∀ error next, fails error next → failsWeaker error next) :
    Ends tokens parser start okWeaker failsWeaker := by
  refine Walk.Ends.mono ends fun result next holds => ?_
  cases result with
  | ok value => exact weakens value next holds
  | error error => exact weakensError error next holds

end Parser
end

/-! ### Looking and moving -/

/-- The descent with its cursor behind the next token. -/
def moved (descent : Descent) : Descent :=
  { descent with position := descent.position + 1 }

theorem moved_inside {tokens : List Token} {descent : Descent}
    (before : descent.position < limit tokens) : (moved descent).position ≤ limit tokens :=
  before

section

variable {tokens list : List Token} {descent : Descent}

theorem getElem?_eq_front (alike : Alike tokens list) {place : Nat}
    (inside : place ≤ limit tokens) : list[place]? = some (front tokens place) := by
  obtain ⟨after, rfl⟩ := alike
  rcases Nat.lt_or_eq_of_le inside with before | atLimit
  · rw [List.getElem?_append_left before, front, unread, List.headD_eq_head?_getD,
      List.head?_drop, List.getElem?_eq_getElem before]
    rfl
  · rw [front_of_ge tokens atLimit.ge, atLimit, limit,
      List.getElem?_append_right (Nat.le_refl _), Nat.sub_self]
    rfl

section

variable (inside : descent.position ≤ limit tokens)
include inside

theorem peek_eq : Walk.Does tokens peek descent (front tokens descent.position) descent := by
  intro list alike
  rw [peek, getElem?_eq_front alike inside]
  rfl

theorem previous_eq :
    Walk.Does tokens previous descent (front tokens (descent.position - 1)) descent := by
  intro list alike
  rw [previous, getElem?_eq_front alike ((Nat.sub_le _ _).trans inside)]
  rfl

end

/-- What has been moved over is in front of the cursor. -/
theorem previous_moved (before : descent.position < limit tokens) :
    Walk.Does tokens previous (moved descent) (front tokens descent.position) (moved descent) :=
  previous_eq (moved_inside before)

section

variable (inside : descent.position ≤ limit tokens)
include inside

theorem isAtEnd_eq :
    Walk.Does tokens isAtEnd descent (limit tokens ≤ descent.position : Bool) descent := by
  intro list alike
  rw [isAtEnd, Walk.bind_eq _ (peek_eq inside list alike), ← isEnd_front]
  rfl

theorem advance_of_lt (before : descent.position < limit tokens) :
    Walk.Does tokens advance descent (front tokens descent.position) (moved descent) := by
  intro list alike
  have moves : (modify fun descent : Descent => { descent with position := descent.position + 1 } :
      Walk Unit) descent = some ((), moved descent) := rfl
  rw [advance, Walk.bind_eq _ (isAtEnd_eq inside list alike),
    decide_eq_false (Nat.not_le_of_lt before), if_neg Bool.false_ne_true, Walk.bind_eq _ moves]
  exact previous_moved before list alike

/-- At the mark the cursor stays where it is. -/
theorem advance_of_ge (atEnd : limit tokens ≤ descent.position) :
    Walk.Does tokens advance descent (front tokens (descent.position - 1)) descent := by
  intro list alike
  rw [advance, Walk.bind_eq _ (isAtEnd_eq inside list alike), decide_eq_true atEnd, if_pos rfl]
  exact previous_eq inside list alike

/-- No mark is of the kind that is looked for. -/
theorem check_eq {kind : TokenKind} (plain : kind ≠ .endOfInput) :
    Walk.Does tokens (check · kind) descent ((front tokens descent.position).kind = kind : Bool)
      descent := by
  intro list alike
  simp only [check]
  rw [Walk.bind_eq _ (isAtEnd_eq inside list alike), ← isEnd_front]
  cases ends : (front tokens descent.position).isEnd with
  | true =>
    have isMark : (front tokens descent.position).kind = .endOfInput := by
      simpa [Token.isEnd] using ends
    rw [isMark, decide_eq_false plain.symm]
    rfl
  | false =>
    rw [if_neg Bool.false_ne_true, Walk.bind_eq _ (peek_eq inside list alike)]
    rfl

theorem anyM_check_eq {kinds : List TokenKind} (plain : .endOfInput ∉ kinds) :
    Walk.Does tokens (fun list => kinds.anyM (check list)) descent
      ((front tokens descent.position).kind ∈ kinds : Bool) descent := by
  intro list alike
  beta_reduce
  induction kinds with
  | nil => rfl
  | cons kind kinds ih =>
    rw [List.mem_cons, not_or] at plain
    rw [List.anyM, Walk.bind_eq _ (check_eq inside (Ne.symm plain.1) list alike)]
    by_cases same : (front tokens descent.position).kind = kind
    · simp only [same, decide_true, List.mem_cons, true_or]
      rfl
    · simp only [same, decide_false, List.mem_cons, false_or]
      exact ih plain.2

section

variable {kinds : List TokenKind} (plain : .endOfInput ∉ kinds)
include plain

theorem accept_of_mem (member : (front tokens descent.position).kind ∈ kinds) :
    Walk.Does tokens (accept · kinds) descent true (moved descent) := by
  intro list alike
  have before : descent.position < limit tokens :=
    lt_limit_of_kind tokens fun mark => plain (mark ▸ member)
  simp only [accept]
  rw [Walk.bind_eq _ (anyM_check_eq inside plain list alike), decide_eq_true member, if_pos rfl,
    Walk.bind_eq _ (advance_of_lt inside before list alike)]
  rfl

theorem accept_of_not_mem (noMember : (front tokens descent.position).kind ∉ kinds) :
    Walk.Does tokens (accept · kinds) descent false descent := by
  intro list alike
  simp only [accept]
  rw [Walk.bind_eq _ (anyM_check_eq inside plain list alike), decide_eq_false noMember]
  rfl

end

section

variable {kind : TokenKind} (plain : kind ≠ .endOfInput) (expected : Expectation)
include plain

theorem expect_of_eq (same : (front tokens descent.position).kind = kind) :
    Parser.Does tokens (expect · kind expected) descent (.ok (front tokens descent.position))
      (moved descent) := by
  intro list alike
  have before : descent.position < limit tokens :=
    lt_limit_of_kind tokens fun mark => plain (same.symm.trans mark)
  simp only [expect, ExceptT.run]
  rw [Parser.bind_ok _ (Parser.lift_eq (check_eq inside plain list alike)), decide_eq_true same,
    if_pos rfl]
  exact Parser.lift_eq (advance_of_lt inside before list alike)

theorem expect_of_ne (differs : (front tokens descent.position).kind ≠ kind) :
    Parser.Does tokens (expect · kind expected) descent
      (.error ⟨.missing expected, front tokens descent.position⟩) descent := by
  intro list alike
  simp only [expect, ExceptT.run]
  rw [Parser.bind_ok _ (Parser.lift_eq (check_eq inside plain list alike)),
    decide_eq_false differs, if_neg Bool.false_ne_true,
    Parser.bind_ok _ (Parser.lift_eq (peek_eq inside list alike))]
  rfl

end
end
end

end BlockScript.Descent
