import BlockScript.Proofs.Source.Layout
import BlockScript.Proofs.Syntax.Relabel

/-!
# Texts that spell tokens

A text spells a list of tokens if it is read as these tokens, without an error and
whatever the lines. Such a text can be put together from the lexemes of the tokens.

## Main results

`Spells.token`: a lexeme in front of a text that spells some tokens spells one more, if what
follows it cannot be taken for a part of it.
`scan_of_spells`: what a scan of the text gives.
-/

namespace BlockScript

def Item.unlined : Item → Item
  | .ok token => .ok token.unlined
  | .error error => .error { error with line := 0 }

/-- Whether a text is read as these tokens and nothing else. -/
def Spells (text : List Char) (tokens : List Token) : Prop :=
  (pieces text).filterMap (fun piece => piece.item? 0) = tokens.map Except.ok

/-! ### Putting texts together -/

theorem Spells.nil : Spells [] [] := by
  simp [Spells]

theorem Spells.blank {c : Char} {text : List Char} {tokens : List Token}
    (later : Spells text tokens) (blank : Character.isBlank c = true) :
    Spells (c :: text) tokens := by
  rw [Spells, pieces_cons, Piece.cut_of_isBlank blank, List.filterMap_cons]
  exact later

theorem Spells.space {text : List Char} {tokens : List Token} (later : Spells text tokens) :
    Spells (' ' :: text) tokens :=
  later.blank rfl

theorem Spells.newline {text : List Char} {tokens : List Token} (later : Spells text tokens) :
    Spells ('\n' :: text) tokens :=
  later.blank rfl

theorem Spells.token {token : Token} {rest : List Char} {tokens : List Token}
    (later : Spells rest tokens) (genuine : token.IsGenuine) (unlined : token.line = 0)
    (apart : token.kind.EndsBefore rest) :
    Spells (token.lexeme.toList ++ rest) (token :: tokens) := by
  obtain ⟨first, more, spelled⟩ := List.exists_cons_of_ne_nil (Lexeme.ne_nil genuine)
  have lexeme : Lexeme token.kind token.literal (first :: more) := spelled ▸ genuine
  have same : String.ofList (first :: more) = token.lexeme := by
    rw [← spelled, String.ofList_toList]
  have whole : (⟨token.kind, token.lexeme, token.literal, 0⟩ : Token) = token := by
    rw [← unlined]
  -- The lexeme is cut off in one piece, and what follows is left as it was.
  rw [spelled, List.cons_append, Spells, pieces_cons, Piece.cut_lexeme lexeme apart,
    List.filterMap_cons]
  simp only [Piece.item?, same, whole, List.map_cons]
  exact congrArg (List.cons _) later

/-! ### Reading them -/

theorem map_unlined_itemsFrom (line : Nat) (segments : List Piece) :
    (itemsFrom line segments).map Item.unlined =
      segments.filterMap (fun piece => piece.item? 0) := by
  induction segments generalizing line with
  | nil => rfl
  | cons first rest ih =>
    rw [itemsFrom, List.filterMap_cons]
    obtain ⟨sort, text⟩ := first
    -- Blanks and comments give no item, any other piece gives one on some line.
    cases sort with
    | blank | comment => exact ih _
    | token | malformed | stray | unterminated => exact congrArg (List.cons _) (ih _)

/-- A text that spells tokens has no errors, and its tokens are these. -/
theorem scan_of_spells {text : String} {tokens : List Token}
    (spells : Spells text.toList tokens) :
    (scan text).errors = [] ∧
      (scan text).tokens.map Token.unlined = tokens ++ [Token.endOfInput 0] := by
  have items : (itemsFrom 1 (pieces text.toList)).map Item.unlined = tokens.map Except.ok :=
    (map_unlined_itemsFrom 1 _).trans spells
  change (Cursor.start text).scan.errors = [] ∧ (Cursor.start text).scan.tokens.map _ = _
  rw [Cursor.scan_eq]
  change (itemsFrom 1 (pieces text.toList)).filterMap Item.error? = [] ∧
    ((itemsFrom 1 (pieces text.toList)).filterMap Item.token? ++ [_]).map _ = _
  generalize itemsFrom 1 (pieces text.toList) = read at items
  constructor
  -- An error would still be one with its line forgotten.
  · refine List.filterMap_eq_nil_iff.mpr (fun item member => ?_)
    have inside : item.unlined ∈ tokens.map Except.ok := items ▸ List.mem_map_of_mem member
    cases item with
    | ok token => rfl
    | error error => simp [Item.unlined] at inside
  -- It does not matter whether the tokens are picked first or their lines forgotten.
  · have commutes (item : Item) :
        item.token?.map Token.unlined = item.unlined.token? := by
      cases item <;> rfl
    have kept := congrArg (List.filterMap Item.token?) items
    rw [List.filterMap_map] at kept
    have whole : (tokens.map Except.ok).filterMap Item.token? = tokens := by
      simp [List.filterMap_map, Function.comp_def, Item.token?]
    rw [List.map_append, List.map_filterMap, ← whole, ← kept]
    simp only [commutes]
    rfl

/-! ### Lexemes with spaces between them -/

/-- Tokens are spelled by their lexemes, whatever the lexemes are, if a space stands between any
two of them. -/
theorem spells_spaced {tokens : List Token}
    (genuine : ∀ token ∈ tokens, token.IsGenuine ∧ token.line = 0) :
    Spells (" ".intercalate (tokens.map Token.lexeme)).toList tokens := by
  induction tokens with
  | nil => exact .nil
  | cons token tokens ih =>
    obtain ⟨⟨known, unlined⟩, later⟩ := List.forall_mem_cons.mp genuine
    rw [List.map_cons]
    by_cases last : tokens = []
    · subst last
      rw [List.map_nil, String.intercalate_singleton, ← List.append_nil token.lexeme.toList]
      exact Spells.nil.token known unlined token.kind.endsBefore_nil
    · rw [String.intercalate_cons_of_ne_nil (by simpa using last)]
      simp only [String.toList_append, List.append_assoc]
      -- A space ends the lexeme in front of it, and is skipped.
      exact (ih later).space.token known unlined (token.kind.endsBefore_blank rfl _)

theorem exists_tokens_of_lexemes {lexemes : List String}
    (complete : ∀ lexeme ∈ lexemes, IsLexeme lexeme.toList) :
    ∃ tokens : List Token, tokens.map Token.lexeme = lexemes ∧
      ∀ token ∈ tokens, token.IsGenuine ∧ token.line = 0 := by
  induction lexemes with
  | nil => exact ⟨[], rfl, by simp⟩
  | cons lexeme lexemes ih =>
    obtain ⟨⟨kind, literal, known⟩, later⟩ := List.forall_mem_cons.mp complete
    obtain ⟨tokens, rfl, genuine⟩ := ih later
    refine ⟨⟨kind, lexeme, literal, 0⟩ :: tokens, rfl, ?_⟩
    exact List.forall_mem_cons.mpr ⟨⟨known, rfl⟩, genuine⟩

/-- **Scanning undoes spelling.** Lexemes with single spaces between them are read without an
error as one token for each of them, in their order, and each of these tokens is, up to its line,
the one that its lexeme is read as when it stands alone. So the lexemes of any text with spaces
between them have the tokens of the text up to their lines. -/
theorem scan_spaced (lexemes : List String)
    (complete : ∀ lexeme ∈ lexemes, IsLexeme lexeme.toList) :
    (∃ tokens : List Token,
      (scan (" ".intercalate lexemes)).errors = [] ∧
      (scan (" ".intercalate lexemes)).tokens.map Token.unlined =
        tokens ++ [Token.endOfInput 0] ∧
      tokens.map Token.lexeme = lexemes ∧
      ∀ token ∈ tokens, (scan token.lexeme).errors = [] ∧
        (scan token.lexeme).tokens.map Token.unlined = [token, Token.endOfInput 0]) ∧
    ∀ source : String,
      let spaced := " ".intercalate ((scan source).tokens.dropLast.map Token.lexeme)
      (scan spaced).errors = [] ∧
        (scan spaced).tokens.map Token.unlined = (scan source).tokens.map Token.unlined := by
  constructor
  · obtain ⟨tokens, rfl, genuine⟩ := exists_tokens_of_lexemes complete
    obtain ⟨clean, read⟩ := scan_of_spells (spells_spaced genuine)
    refine ⟨tokens, clean, read, rfl, fun token member => ?_⟩
    -- A lexeme that stands alone is a row of one.
    have alone : Spells (" ".intercalate ([token].map Token.lexeme)).toList [token] :=
      spells_spaced (List.forall_mem_singleton.mpr (genuine token member))
    rw [List.map_singleton, String.intercalate_singleton] at alone
    exact scan_of_spells alone
  · intro source spaced
    have marked := scan_tokens_eq source
    have lexemes : (scan source).tokens.dropLast.map Token.lexeme =
        ((segmentTokens (pieces source.toList)).map Token.unlined).map Token.lexeme := by
      rw [marked, List.dropLast_concat, List.map_map]
      rfl
    have genuine : ∀ token ∈ (segmentTokens (pieces source.toList)).map Token.unlined,
        token.IsGenuine ∧ token.line = 0 := by
      rw [List.forall_mem_map]
      intro token member
      have known : token.IsGenuine := isGenuine_of_mem_scan member
      exact ⟨known, rfl⟩
    obtain ⟨clean, read⟩ := scan_of_spells (spells_spaced genuine)
    simp only [spaced, lexemes]
    refine ⟨clean, ?_⟩
    rw [read, marked, List.map_append]
    rfl

/-- Without the spaces these would be the tokens of `1.5`, `!=`, a comment and one name. -/
theorem scan_spaced_apart :
    (∀ lexeme ∈ ["1", ".", "5", "!", "=", "\"//\n\"", "/", "/", "or", "chid"],
      IsLexeme lexeme.toList) ∧
    ∃ tokens : List Token,
      (scan "1 . 5 ! = \"//\n\" / / or chid").errors = [] ∧
      (scan "1 . 5 ! = \"//\n\" / / or chid").tokens.map Token.unlined =
        tokens ++ [Token.endOfInput 0] ∧
      tokens.map Token.lexeme = ["1", ".", "5", "!", "=", "\"//\n\"", "/", "/", "or", "chid"] ∧
      ∀ token ∈ tokens, (scan token.lexeme).errors = [] ∧
        (scan token.lexeme).tokens.map Token.unlined = [token, Token.endOfInput 0] := by
  have complete : ∀ lexeme ∈ ["1", ".", "5", "!", "=", "\"//\n\"", "/", "/", "or", "chid"],
      IsLexeme lexeme.toList := by
    decide +kernel
  have spaced : " ".intercalate ["1", ".", "5", "!", "=", "\"//\n\"", "/", "/", "or", "chid"] =
      "1 . 5 ! = \"//\n\" / / or chid" := by
    decide +kernel
  rw [← spaced]
  exact ⟨complete, (scan_spaced _ complete).1⟩

end BlockScript
