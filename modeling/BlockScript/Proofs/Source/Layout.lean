import BlockScript.Proofs.Source.Lexeme
import BlockScript.Source.Scan

/-!
# Where the tokens of a text stand

## Main result

`scan_layout`: a text is a row of segments; the tokens and the errors of a scan are those
of the segments, in their order, each on the line on which its segment ends.

## Proof strategy

The segments are the pieces. A scan carries a line from piece to piece; by induction on
the pieces it is one more than the number of newlines passed so far.
-/

namespace BlockScript

namespace Piece

/-- The token of a segment that ends on `line`, if the segment is one. -/
def tokenOn? (line : Nat) (segment : Piece) : Option Token :=
  match segment.sort with
  | .token kind literal => some ⟨kind, String.ofList segment.text, literal, line⟩
  | _ => none

/-- The error for a segment that ends on `line`, if the segment is at fault. -/
def errorOn? (line : Nat) (segment : Piece) : Option SyntaxError :=
  match segment.sort with
  | .malformed => some ⟨line, .unknown, "Invalid number literal."⟩
  | .stray => some ⟨line, .unknown, "Unexpected character."⟩
  | .unterminated => some ⟨line, .unknown, "Unterminated string."⟩
  | _ => none

end Piece

/-- The line on which the segment with an index ends: one, and one more for every newline
up to there. -/
def lineAt (segments : List Piece) (index : Nat) : Nat :=
  1 + ((segments.take (index + 1)).flatMap Piece.text).count '\n'

/-- The tokens among segments, each on the line on which its segment ends. -/
def segmentTokens (segments : List Piece) : List Token :=
  (segments.mapIdx (fun index segment => segment.tokenOn? (lineAt segments index))).filterMap id

/-- The errors for segments, each on the line on which its segment ends. -/
def segmentErrors (segments : List Piece) : List SyntaxError :=
  (segments.mapIdx (fun index segment => segment.errorOn? (lineAt segments index))).filterMap id

/-! ### The line of a scan -/

namespace Piece

theorem item?_bind_token? (segment : Piece) (line : Nat) :
    (segment.item? line).bind Item.token? = segment.tokenOn? line := by
  obtain ⟨sort, text⟩ := segment
  cases sort <;> rfl

theorem item?_bind_error? (segment : Piece) (line : Nat) :
    (segment.item? line).bind Item.error? = segment.errorOn? line := by
  obtain ⟨sort, text⟩ := segment
  cases sort <;> rfl

end Piece

/-- What is kept of the items of a scan is kept segment by segment, with the line counted
over all segments so far. -/
theorem filterMap_itemsFrom {α : Type} {keep : Item → Option α}
    {keepOn? : Nat → Piece → Option α}
    (agrees : ∀ segment line, (Piece.item? segment line).bind keep = keepOn? line segment)
    (line : Nat) (segments : List Piece) :
    (itemsFrom line segments).filterMap keep =
      (segments.mapIdx (fun index segment =>
        keepOn? (line + ((segments.take (index + 1)).flatMap Piece.text).count '\n')
          segment)).filterMap id := by
  induction segments generalizing line with
  | nil => rfl
  | cons first rest ih =>
    -- The newlines of the first segment are counted before the others are read.
    have later (index : Nat) :
        line + (((first :: rest).take (index + 1 + 1)).flatMap Piece.text).count '\n' =
          line + first.lines + ((rest.take (index + 1)).flatMap Piece.text).count '\n' := by
      rw [List.take_succ_cons, List.flatMap_cons, List.count_append, ← Nat.add_assoc]
      rfl
    have here : line + (((first :: rest).take (0 + 1)).flatMap Piece.text).count '\n' =
        line + first.lines := by
      simp [Piece.lines]
    have others := ih (line + first.lines)
    simp only [← later] at others
    rw [List.mapIdx_cons, List.filterMap_cons, ← others, here, ← agrees first, itemsFrom]
    cases first.item? (line + first.lines) with
    | none => rfl
    | some item => rfl

/-! ### The segments of a text -/

theorem lawful_of_pieces {text : List Char} {before after : List Piece} {segment : Piece}
    (parts : pieces text = before ++ segment :: after) : segment.Lawful after := by
  fun_induction pieces text generalizing before with
  | case1 => simp at parts
  | case2 first rest ih =>
    -- The segment is what is cut off here, or one of the pieces of what is left.
    cases before with
    | nil =>
      obtain ⟨rfl, rfl⟩ := List.cons.inj parts
      exact Piece.cut_lawful first rest
    | cons _ before => exact ih (List.cons.inj parts).2

namespace Piece

variable {line : Nat} {segment : Piece}

theorem isGenuine_of_tokenOn? {after : List Piece} {token : Token}
    (lawful : segment.Lawful after) (found : segment.tokenOn? line = some token) :
    token.IsGenuine := by
  cases lawful with
  | token lexeme =>
    cases found
    rw [Token.IsGenuine, String.toList_ofList]
    exact lexeme
  | _ => simp [tokenOn?] at found

/-- A segment that has its form is not at fault for a numeral. -/
theorem message_of_errorOn? {after : List Piece} {error : SyntaxError}
    (lawful : segment.Lawful after) (found : segment.errorOn? line = some error) :
    error.message ≠ "Invalid number literal." := by
  cases lawful <;> cases found <;> simp

end Piece

/-- What is kept of a row of segments is kept of some segment in it. -/
theorem exists_of_mem_mapIdx {α : Type} {keep : Nat → Piece → Option α} {segments : List Piece}
    {kept : α} (member : kept ∈ (segments.mapIdx keep).filterMap id) :
    ∃ index segment, segment ∈ segments ∧ keep index segment = some kept := by
  obtain ⟨_, mapped, found⟩ := List.mem_filterMap.mp member
  obtain ⟨index, bound, same⟩ := List.mem_mapIdx.mp mapped
  exact ⟨index, segments[index], List.getElem_mem bound, same.trans found⟩

/-- The tokens of a scan are those of the pieces, and the mark of the end. -/
theorem scan_tokens_eq (text : String) :
    (scan text).tokens = segmentTokens (pieces text.toList) ++
      [Token.endOfInput (1 + text.toList.count '\n')] := by
  change (Cursor.start text).scan.tokens = _
  rw [Cursor.scan_eq]
  exact congrArg (· ++ _) (filterMap_itemsFrom Piece.item?_bind_token? 1 (pieces text.toList))

theorem scan_errors_eq (text : String) :
    (scan text).errors = segmentErrors (pieces text.toList) := by
  change (Cursor.start text).scan.errors = _
  rw [Cursor.scan_eq]
  exact filterMap_itemsFrom Piece.item?_bind_error? 1 (pieces text.toList)

/-- A scan makes up no token: each has the text and the value of its kind. -/
theorem isGenuine_of_mem_scan {text : String} {token : Token}
    (member : token ∈ segmentTokens (pieces text.toList)) : token.IsGenuine := by
  obtain ⟨index, segment, inside, found⟩ := exists_of_mem_mapIdx member
  obtain ⟨before, after, parts⟩ := List.append_of_mem inside
  exact Piece.isGenuine_of_tokenOn? (lawful_of_pieces parts) found

/-- A text is a row of segments, and nothing else: blanks, comments, tokens, single
characters that begin no token, and at its very end perhaps an unclosed string. The tokens
of a scan are the token segments, and the errors are one for each of the segments at
fault. All of them are on the line on which their segment ends, and the mark of the end is
on the last line. -/
theorem scan_layout (text : String) :
    ∃ segments : List Piece,
      segments.flatMap Piece.text = text.toList ∧
      (∀ before segment after, segments = before ++ segment :: after →
        segment.Lawful after) ∧
      (scan text).tokens = segmentTokens segments ++
        [⟨.endOfInput, "", none, 1 + text.toList.count '\n'⟩] ∧
      (∀ token ∈ segmentTokens segments, token.kind ≠ .endOfInput) ∧
      (scan text).errors = segmentErrors segments ∧
      ∀ error ∈ (scan text).errors, error.message ≠ "Invalid number literal." := by
  refine ⟨pieces text.toList, flatMap_text_pieces _, fun _ _ _ => lawful_of_pieces,
    scan_tokens_eq text, ?_, scan_errors_eq text, ?_⟩
  · intro token member
    exact (isGenuine_of_mem_scan member).kind_ne_endOfInput
  · intro error member
    rw [scan_errors_eq] at member
    obtain ⟨_, _, inside, found⟩ := exists_of_mem_mapIdx member
    obtain ⟨_, _, parts⟩ := List.append_of_mem inside
    exact Piece.message_of_errorOn? (lawful_of_pieces parts) found

end BlockScript
