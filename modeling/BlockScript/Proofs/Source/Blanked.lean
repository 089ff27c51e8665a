import BlockScript.Parse.Program
import BlockScript.Proofs.Source.Joined
import BlockScript.Proofs.Source.Munch

/-!
# Comments and stray characters as spaces

A comment and a character with which no token begins keep apart what is around them, and do
nothing else. So does a space.

## Main results

`pieces_blanked`: if a space stands for a comment or a stray character, all other pieces of the
text stay as they are.
`scan_blanked`: what then becomes of the tokens and the errors, and of the program.

## Proof strategy

1. A piece stays what it is if the text behind it ends earlier (`Piece.cut_shorter`): a shorter
   text begins with no lexeme that did not begin the longer one.
2. So what is in front of a piece has the same pieces when it stands alone (`pieces_front`), and
   what is behind it has them anyway.
3. The text in front leaves no string open, since a piece follows, and does not end with a
   comment, since a comment runs up to a newline. So the space is a piece of its own.
-/

namespace BlockScript

/-! ### Texts that end earlier -/

/-- A piece stays what it is if the text behind it ends earlier. -/
theorem Piece.cut_shorter {first : Char} {rest body left : List Char}
    (spelled : (cut first rest).1.text = first :: body) (front : left <+: (cut first rest).2) :
    cut first (body ++ left) = ((cut first rest).1, left) := by
  have parts := cut_text first rest
  rw [spelled, List.cons_append, List.cons_inj_right] at parts
  have lawful := cut_lawful first rest
  have behind := flatMap_text_pieces (cut first rest).2
  by_cases closed : (cut first rest).1.sort = .unterminated
  -- Nothing is behind a string that is not closed, so nothing can be missing.
  · rw [lawful.eq_nil_of_unterminated closed, List.flatMap_nil] at behind
    rw [← behind, List.append_nil] at parts
    rw [← behind, List.prefix_nil] at front
    rw [parts, front, List.append_nil, behind]
  · have short : body ++ left <+: rest := parts ▸ (List.prefix_append_right_inj body).mpr front
    refine cut_congr spelled closed ?_ ?_ ?_
    · intro comment c next
      apply lawful.eq_newline_of_comment comment
      obtain ⟨more, longer⟩ := front
      rw [behind, ← longer, List.head?_append, next]
      rfl
    · intro next
      obtain ⟨more, rfl⟩ := short
      rw [List.head?_append, next]
      rfl
    · intro lexeme _ inside
      exact inside.trans (List.cons_prefix_cons.mpr ⟨rfl, short⟩)

theorem pieces_front {text : List Char} {before after : List Piece}
    (parts : pieces text = before ++ after) : pieces (before.flatMap Piece.text) = before := by
  fun_induction pieces text generalizing before with
  | case1 =>
    obtain ⟨rfl, -⟩ := List.append_eq_nil_iff.mp parts.symm
    exact pieces_nil
  | case2 first rest ih =>
    cases before with
    | nil => exact pieces_nil
    | cons piece before =>
      obtain ⟨rfl, later⟩ := List.cons.inj parts
      change pieces (Piece.cut first rest).2 = before ++ after at later
      obtain ⟨c, body, spelled⟩ := List.exists_cons_of_ne_nil (Piece.cut_text_ne_nil first rest)
      have whole := Piece.cut_text first rest
      rw [spelled] at whole
      obtain ⟨rfl, -⟩ := List.cons.inj whole
      -- What is behind the first piece ends earlier than before, but with a piece.
      have front : before.flatMap Piece.text <+: (Piece.cut c rest).2 := by
        rw [← flatMap_text_pieces (Piece.cut c rest).2, later, List.flatMap_append]
        exact List.prefix_append _ _
      rw [List.flatMap_cons, spelled, List.cons_append, pieces_cons,
        Piece.cut_shorter spelled front, ih later]

theorem pieces_back {text : List Char} {before after : List Piece}
    (parts : pieces text = before ++ after) : pieces (after.flatMap Piece.text) = after := by
  induction before generalizing text with
  | nil =>
    rw [List.nil_append] at parts
    rw [← parts, flatMap_text_pieces]
  | cons piece before ih =>
    cases text with
    | nil => simp at parts
    | cons first rest =>
      rw [pieces_cons] at parts
      exact ih (List.cons.inj parts).2

/-! ### A space for a piece -/

section

variable {text : List Char} {before after : List Piece} {segment : Piece}
  (parts : pieces text = before ++ segment :: after)
include parts

theorem exists_lawful_of_mem_front {piece : Piece} (member : piece ∈ before) :
    ∃ between, piece.Lawful (between ++ segment :: after) := by
  obtain ⟨front, between, rfl⟩ := List.append_of_mem member
  rw [List.append_assoc, List.cons_append] at parts
  exact ⟨between, lawful_of_pieces parts⟩

/-- A space in the place of a comment or of a stray character is a piece of its own, and all
other pieces stay as they are. -/
theorem pieces_blanked (gap : segment.sort = .comment ∨ segment.sort = .stray) :
    pieces (before.flatMap Piece.text ++ ' ' :: after.flatMap Piece.text) =
      before ++ ⟨.blank, [' ']⟩ :: after := by
  have lawful := lawful_of_pieces parts
  have front : pieces (before.flatMap Piece.text) = before := pieces_front parts
  have back : pieces (after.flatMap Piece.text) = after :=
    pieces_back (parts.trans (List.append_cons before segment after))
  have closed : ∀ piece ∈ before, piece.sort ≠ .unterminated := by
    intro piece member sort
    obtain ⟨between, follows⟩ := exists_lawful_of_mem_front parts member
    simpa using follows.eq_nil_of_unterminated sort
  have apart : ∀ last ∈ before.getLast?, last.sort = .comment → ' ' = '\n' := by
    intro last member sort
    exfalso
    obtain ⟨front, rfl⟩ := List.getLast?_eq_some_iff.mp member
    rw [List.append_assoc, List.singleton_append] at parts
    -- The segment would have to begin with the newline that ends the comment.
    have inside : segment ∈ pieces text := parts ▸ by simp
    obtain ⟨c, more, spelled⟩ := List.exists_cons_of_ne_nil (text_ne_nil_of_mem_pieces inside)
    have newline : c = '\n' := by
      apply (lawful_of_pieces parts).eq_newline_of_comment sort
      simp [spelled]
    apply lawful.newline_not_mem gap
    simp [spelled, newline]
  rw [← front] at closed apart
  rw [pieces_blank rfl _ closed apart, front, back]

end

/-! ### Tokens and errors -/

/-- A piece without newlines yields an item at most, and all others are on their lines. -/
theorem itemsFrom_oneLine (line : Nat) {segment : Piece} (oneLine : '\n' ∉ segment.text)
    (after : List Piece) :
    itemsFrom line (segment :: after) = (segment.item? line).toList ++ itemsFrom line after := by
  rw [itemsFrom, Piece.lines, List.count_eq_zero_of_not_mem oneLine, Nat.add_zero]
  cases segment.item? line <;> rfl

theorem segmentErrors_eq (segments : List Piece) :
    segmentErrors segments = (itemsFrom 1 segments).filterMap Item.error? :=
  (filterMap_itemsFrom Piece.item?_bind_error? 1 segments).symm

/-- **Comments and stray characters act as a space.** Let a comment of a text, or a character
with which no token begins, be replaced by one space. The text then has the same tokens, on the
same lines, and the same errors, but for the one error of the character that is gone. So it is
parsed as the same program, and with the same errors of grammar. -/
theorem scan_blanked (source : String) {before after : List Piece} {segment : Piece}
    (parts : pieces source.toList = before ++ segment :: after)
    (gap : segment.sort = .comment ∨ segment.sort = .stray) :
    let blanked := String.ofList (before.flatMap Piece.text ++ ' ' :: after.flatMap Piece.text)
    let line := 1 + (before.flatMap Piece.text).count '\n'
    let own : List SyntaxError :=
      if segment.sort = .stray then [⟨line, .unknown, "Unexpected character."⟩] else []
    let faults := (Parse.ofTokens (scan source).tokens).errors.map Parse.Error.report
    ∃ later,
      (scan source).errors = segmentErrors before ++ own ++ later ∧
      scan blanked = ⟨(scan source).tokens, segmentErrors before ++ later⟩ ∧
      (parse source).errors = segmentErrors before ++ own ++ later ++ faults ∧
      parse blanked = ⟨(parse source).program, segmentErrors before ++ later ++ faults⟩ := by
  intro blanked line own faults
  have oneLine := (lawful_of_pieces parts).newline_not_mem gap
  have items : (Cursor.start source).items =
      itemsFrom 1 before ++ ((segment.item? line).toList ++ itemsFrom line after) := by
    change itemsFrom 1 (pieces source.toList) = _
    rw [parts, itemsFrom_append, itemsFrom_oneLine _ oneLine]
  have itemsBlanked : (Cursor.start blanked).items = itemsFrom 1 before ++ itemsFrom line after := by
    change itemsFrom 1 (pieces blanked.toList) = _
    rw [String.toList_ofList, pieces_blanked parts gap, itemsFrom_append]
    rfl
  have noToken : (segment.item? line).toList.filterMap Item.token? = [] := by
    rcases gap with sort | sort <;> simp [Piece.item?, sort, Item.token?]
  have ownError : (segment.item? line).toList.filterMap Item.error? = own := by
    rcases gap with sort | sort
    · simp [Piece.item?, sort, own]
    · simp only [Piece.item?, sort, own, if_true]
      rfl
  have lines : blanked.toList.count '\n' = source.toList.count '\n' := by
    rw [← flatMap_text_pieces source.toList, parts]
    simp [blanked, List.count_eq_zero_of_not_mem oneLine]
  have errors : (scan source).errors =
      segmentErrors before ++ own ++ (itemsFrom line after).filterMap Item.error? := by
    rw [scan_eq_items, items]
    simp [ownError, segmentErrors_eq]
  have scanned : scan blanked = ⟨(scan source).tokens,
      segmentErrors before ++ (itemsFrom line after).filterMap Item.error?⟩ := by
    rw [scan_eq_items, scan_eq_items source, items, itemsBlanked, lines]
    simp [noToken, segmentErrors_eq]
  refine ⟨_, errors, scanned, ?_, ?_⟩
  · rw [← errors]
    rfl
  -- Parsing looks at the tokens, and these are the same.
  · rw [parse, scanned]
    rfl

/-- Two symbols that a stray character keeps apart are kept apart by the space, and what looks
like a comment or a stray character inside of a string is not touched. -/
theorem scan_blanked_symbols :
    pieces "!@= \"//@\"".toList =
      pieces "!".toList ++ ⟨.stray, ['@']⟩ :: pieces "= \"//@\"".toList ∧
    ∃ later,
      (scan "!@= \"//@\"").errors = ⟨1, .unknown, "Unexpected character."⟩ :: later ∧
      scan "! = \"//@\"" = ⟨(scan "!@= \"//@\"").tokens, later⟩ ∧
      (parse "! = \"//@\"").program = (parse "!@= \"//@\"").program := by
  have parts : pieces "!@= \"//@\"".toList =
      pieces "!".toList ++ ⟨.stray, ['@']⟩ :: pieces "= \"//@\"".toList := by
    decide +kernel
  have text : String.ofList ((pieces "!".toList).flatMap Piece.text ++
      ' ' :: (pieces "= \"//@\"".toList).flatMap Piece.text) = "! = \"//@\"" := by
    rw [flatMap_text_pieces, flatMap_text_pieces]
    decide
  have front : segmentErrors (pieces "!".toList) = [] := by decide +kernel
  obtain ⟨later, errors, scanned, -, parsed⟩ := scan_blanked "!@= \"//@\"" parts (.inr rfl)
  rw [front, flatMap_text_pieces] at errors
  rw [text, front] at scanned
  rw [text] at parsed
  exact ⟨parts, later, errors, scanned, by rw [parsed]⟩

end BlockScript
