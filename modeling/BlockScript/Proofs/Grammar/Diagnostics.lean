import BlockScript.Proofs.Grammar.Order
import BlockScript.Proofs.Run.Joined

/-!
# What a text is reported for

## Main result

`parse_errors_order`: the errors of a text are those of its characters, in their order, and then
those of its grammar, in the order of the tokens to blame; but of rejected assignments, the one
in the right side of another is listed first.

## Proof strategy

Tokens are in the order of the text, so their lines ascend. What a parse looks at is all tokens
of the scan, and the order of its errors is known by their places.
-/

namespace BlockScript

open Grammar Parse

/-! ### Lines -/

def Item.line : Item → Nat
  | .ok token => token.line
  | .error error => error.line

theorem Piece.line_of_item? {piece : Piece} {line : Nat} {item : Item}
    (found : piece.item? line = some item) : item.line = line := by
  obtain ⟨sort, text⟩ := piece
  cases sort <;> cases found <;> rfl

/-- The items of a scan are on ascending lines, up to the last line. -/
theorem itemsFrom_ascending (line : Nat) (segments : List Piece) :
    (itemsFrom line segments).Pairwise (fun item later => item.line ≤ later.line) ∧
    ∀ item ∈ itemsFrom line segments, line ≤ item.line ∧
      item.line ≤ line + (segments.flatMap Piece.text).count '\n' := by
  induction segments generalizing line with
  | nil => exact ⟨List.Pairwise.nil, nofun⟩
  | cons first rest ih =>
    obtain ⟨ascending, bounds⟩ := ih (line + first.lines)
    have lines : ((first :: rest).flatMap Piece.text).count '\n' =
        first.lines + (rest.flatMap Piece.text).count '\n' := by
      rw [List.flatMap_cons, List.count_append, Piece.lines]
    have later : ∀ item ∈ itemsFrom (line + first.lines) rest, line ≤ item.line ∧
        item.line ≤ line + ((first :: rest).flatMap Piece.text).count '\n' := by
      intro item member
      have between := bounds item member
      omega
    rw [itemsFrom]
    cases found : first.item? (line + first.lines) with
    | none => exact ⟨ascending, later⟩
    | some item =>
      have here := Piece.line_of_item? found
      simp only [List.pairwise_cons, List.forall_mem_cons]
      refine ⟨⟨fun other member => ?_, ascending⟩, ⟨by omega, by omega⟩, later⟩
      have behind := bounds other member
      omega

/-- The tokens of a scan are on ascending lines. -/
theorem scan_tokens_ascending (source : String) :
    (scan source).tokens.Pairwise (fun token later => token.line ≤ later.line) := by
  obtain ⟨ascending, bounds⟩ := itemsFrom_ascending 1 (pieces source.toList)
  rw [flatMap_text_pieces] at bounds
  have ofToken {item : Item} {token : Token} (kept : item.token? = some token) :
      item.line = token.line := by
    cases item <;> cases kept
    rfl
  rw [scan_eq_items, List.pairwise_append]
  refine ⟨ascending.filterMap _ ?_, List.pairwise_singleton _ _, fun token member => ?_⟩
  · intro item other ordered token kept later keptLater
    rwa [← ofToken kept, ← ofToken keptLater]
  · obtain ⟨item, inside, kept⟩ := List.mem_filterMap.mp member
    rw [List.forall_mem_singleton, ← ofToken kept]
    exact (bounds item inside).2

theorem line_le_of_place_le (source : String) {place other : Nat} {token later : Token}
    (found : (scan source).tokens[place]? = some token)
    (foundLater : (scan source).tokens[other]? = some later) (ordered : place ≤ other) :
    token.line ≤ later.line := by
  rcases Nat.eq_or_lt_of_le ordered with rfl | before
  · obtain rfl : token = later := Option.some.inj (found.symm.trans foundLater)
    exact Nat.le_refl _
  · obtain ⟨inside, rfl⟩ := List.getElem?_eq_some_iff.mp found
    obtain ⟨insideLater, rfl⟩ := List.getElem?_eq_some_iff.mp foundLater
    exact List.pairwise_iff_getElem.mp (scan_tokens_ascending source) _ _ inside insideLater before

/-- A parse looks at all tokens of a scan. -/
theorem looksAt_scan (source : String) :
    looksAt (scan source).tokens = (scan source).tokens := by
  have plain : ∀ token ∈ segmentTokens (pieces source.toList), token.isEnd = false := by
    intro token member
    have kind := (isGenuine_of_mem_scan member).kind_ne_endOfInput
    simpa [Token.isEnd] using kind
  rw [scan_tokens_eq]
  obtain ⟨sameText, sameMark⟩ := text_mark plain (Token.isEnd_endOfInput _) []
  rw [looksAt, sameText, sameMark]

/-! ### Errors -/

theorem Session.syntaxErrors_run {W : Type} [Writer W] (session : Session W) (source : String) :
    (session.run source).1.syntaxErrors = (parse source).errors := by
  by_cases parses : (parse source).errors = []
  · rw [run_of_parses session parses, syntaxErrors_execute, parses]
  · rw [run_of_errors parses]

/-- Errors are listed by their places if and only if no rejected assignment stands in the right
side of another one. -/
theorem ascending_iff {tokens : List Token} {errors : List (Error × Nat)}
    (listed : errors.Pairwise (Precedes tokens)) :
    errors.Pairwise (fun first second => first.2 ≤ second.2) ↔
      ∀ inner ∈ errors, ∀ outer ∈ errors, ¬Nested tokens inner outer := by
  constructor
  · intro ascending
    -- Of two errors neither is nested in the other, and none is in itself.
    have forwards : errors.Pairwise fun first second => ¬Nested tokens first second :=
      ascending.imp fun places nested => absurd nested.2.2.1 (Nat.not_lt.mpr places)
    have backwards : errors.Pairwise fun first second => ¬Nested tokens second first :=
      (listed.and forwards).imp fun both => (both.1.resolve_left both.2).2
    have self : ∀ error ∈ errors, ¬Nested tokens error error :=
      fun error _ nested => Nat.lt_irrefl _ nested.2.2.1
    intro inner member outer memberOuter
    exact List.Pairwise.forall_of_forall_of_flip self forwards backwards member memberOuter
  · intro apart
    refine listed.imp_of_mem fun {first second} member memberSecond precedes => ?_
    exact (precedes.resolve_left (apart first member second memberSecond)).1

/-- **The order of the errors of a text.** First come the errors of its characters, in their
order, and then those of its grammar. Each of these is blamed on a token, and they are in the
order of these tokens, but for assignments without a variable on their left: those in the right
side of such an assignment come before it. So the errors are in the order of the text if and
only if there are no two such assignments, the one in the other; and from one error to a later
one the lines never decrease, unless they are such a pair. -/
theorem parse_errors_order {W : Type} [Writer W] (source : String) (session : Session W) :
    let tokens := (scan source).tokens
    let errors := blamed tokens
    (parse source).errors =
      segmentErrors (pieces source.toList) ++ errors.map (fun error => error.1.report) ∧
    (session.run source).1.syntaxErrors = (parse source).errors ∧
    (∀ error ∈ errors, tokens[error.2]? = some error.1.token) ∧
    errors.Pairwise (Precedes tokens) ∧
    (errors.Pairwise (fun first second => first.2 ≤ second.2) ↔
      ∀ inner ∈ errors, ∀ outer ∈ errors, ¬Nested tokens inner outer) ∧
    errors.Pairwise fun first second =>
      Nested tokens first second ∨ first.1.report.line ≤ second.1.report.line := by
  intro tokens errors
  obtain ⟨same, stands, listed⟩ := pairwise_blamed tokens
  rw [looksAt_scan] at stands listed
  refine ⟨?_, session.syntaxErrors_run source, stands, listed, ascending_iff listed, ?_⟩
  · rw [parse, scan_errors_eq, ← same, List.map_map]
    rfl
  · refine listed.imp_of_mem fun {first second} member memberSecond precedes => ?_
    refine precedes.imp_right fun ordered => ?_
    exact line_le_of_place_le source (stands first member) (stands second memberSecond) ordered.1

/-- The second equals sign is reported first. -/
theorem parse_errors_unordered :
    let errors := blamed (scan "1 =\n2 = 3;").tokens
    ¬errors.Pairwise (fun first second => first.2 ≤ second.2) ∧
    (parse "1 =\n2 = 3;").errors.map SyntaxError.line = [2, 1] := by
  decide +kernel

end BlockScript
