import BlockScript.Proofs.Grammar.Relabel
import BlockScript.Proofs.Grammar.Soundness
import BlockScript.Proofs.Printing.Canonical

/-!
# Printed programs are read back

## Main result

`parse_render`: whatever a text was, the program that was read of it is printed as a text
without errors, and what is read from that text is printed in the same way again. If all
numbers of the program are finite, it is the same program but for lines.

## Proof strategy

A program that has been read stands for derivations, and so does its text for the derivations
that are read back. A scan of the text gives their tokens, on other lines; parsing does not
look at lines, and what can be derived is read as its tree.
-/

namespace BlockScript

open Grammar Parse

/-- The tokens of a text end where its mark of the end is. -/
theorem takeWhile_genuine {tokens : List Token} (genuine : Genuine tokens) {mark : Token}
    (ends : mark.isEnd = true) :
    (tokens ++ [mark]).takeWhile (fun token => !token.isEnd) = tokens := by
  have inside : ∀ token ∈ tokens, (!token.isEnd) = true := fun token member => by
    have kind := (genuine token member).kind_ne_endOfInput
    simpa [Token.isEnd] using kind
  rw [List.takeWhile_append_of_pos inside, List.takeWhile_cons, ends]
  simp

/-- A text that spells a derivation without rejected assignments is read as its tree. -/
theorem parse_of_spells {text : String} {clauses : List Clause}
    (derived : ∀ clause ∈ clauses, clause.From .declaration)
    (canonical : Canonical (Clause.allTokens clauses))
    (kept : Clause.allBadTargets clauses = [])
    (spells : Spells text.toList (Clause.allTokens clauses)) :
    (parse text).errors = [] ∧
      Stmt.mapAll Token.unlined (parse text).program = Clause.allStmts clauses := by
  obtain ⟨noErrors, tokens⟩ := scan_of_spells spells
  have ended : ∃ token ∈ (scan text).tokens, token.isEnd = true := by
    have last : Token.endOfInput 0 ∈ (scan text).tokens.map Token.unlined := by simp [tokens]
    obtain ⟨token, member, same⟩ := List.mem_map.mp last
    exact ⟨token, member, congrArg Token.isEnd same⟩
  have genuine : Genuine (Clause.allTokens clauses) := fun token member =>
    (canonical token member).genuine
  -- With their lines forgotten, the tokens of the text are those of the derivation.
  have whole : Derives clauses (((scan text).tokens.map Token.unlined).takeWhile
      (fun token => !token.isEnd)) := by
    rw [tokens, takeWhile_genuine genuine rfl]
    exact ⟨derived, rfl⟩
  have read := whole.ofTokens_eq
  rw [ofTokens_map relabels_unlined ended, kept] at read
  -- Parsing the tokens as they are gives the same result on other lines.
  have program := congrArg Result.program read
  have errors := List.map_eq_nil_iff.mp (congrArg Result.errors read)
  refine ⟨?_, ?_⟩
  · simp [parse, noErrors, errors]
  · rw [Stmt.mapAll_eq]
    exact program

/-- The program that is read of a text stands for derivations of tokens of texts. -/
theorem exists_genuine_derivation (source : String) :
    ∃ clauses, (∀ clause ∈ clauses, clause.From .declaration) ∧
      Genuine (Clause.allTokens clauses) ∧
      (parse source).program = Clause.allStmts clauses := by
  obtain ⟨clauses, derived, program, fewer, _⟩ := exists_derivation (scan source).tokens
  refine ⟨clauses, derived, ?_, program⟩
  have tokens : Genuine (segmentTokens (pieces source.toList)) := fun token member =>
    isGenuine_of_mem_scan member
  -- The tokens of the program are found among those in front of the mark of the end.
  rw [scan_tokens_eq, takeWhile_genuine tokens rfl] at fewer
  exact fun token member => tokens token (fewer.subset member)

/-- **Printed programs are read back.** The program of any text, whatever was wrong with the
text, is printed as a text without errors that is read and printed as itself. If its numbers
are finite, what is read is the program, on other lines. -/
theorem parse_render (source : String) :
    let program := (parse source).program
    let printed := Program.render program
    (parse printed).errors = [] ∧
    Program.render (parse printed).program = printed ∧
    (Program.IsFinite program →
      Stmt.mapAll Token.unlined (parse printed).program =
        Stmt.mapAll Token.unlined program) := by
  intro program printed
  obtain ⟨clauses, derived, genuine, read⟩ := exists_genuine_derivation source
  have back := Clause.allReadBack (fun clause member =>
    (derived clause member).readsBack (Clause.genuine_of_mem genuine member))
  have canonical := Clause.canonical_allPrinted clauses genuine
  have kept := Clause.allBadTargets_printed clauses
  have text : printed = Program.text (Clause.allStmts (Clause.allPrinted clauses)) := by
    rw [back.programText, ← read]
    exact Program.render_eq _
  have spells := spells_program back.derived canonical kept
  rw [← text] at spells
  obtain ⟨noErrors, same⟩ := parse_of_spells back.derived canonical kept spells
  refine ⟨noErrors, ?_, fun finite => ?_⟩
  -- Printing does not show lines, so the program that is read back is printed the same.
  · rw [Program.render_eq, ← Program.text_map Token.lexeme_unlined, same, ← text]
  · have finite : Program.IsFinite (Clause.allStmts clauses) := read ▸ finite
    rw [same, back.same finite, ← read]

end BlockScript
