import BlockScript.Proofs.Grammar.Concatenation
import BlockScript.Proofs.Printing.RoundTrip

/-!
# Printing keeps the tokens

## Main result

`scan_render`: a text that is a program and the text that its program is printed as have the
same tokens, but for their lines and the spelling of numbers.

## Proof strategy

The tokens of a text without errors are those of its derivation, and all of them, since the
derivation keeps every token. What is read back from the printed text is again a derivation, and
without rejected assignments it has the same tokens one by one.
-/

namespace BlockScript

open Grammar Parse

namespace Token

/-- Whether the number of a token, if it carries one, is finite. -/
def isFinite (token : Token) : Bool :=
  match token.literal with
  | some (.number x) => x.isFinite
  | _ => true

/-- Whether a token says the same as another one. Lines do not count, and neither does the
spelling of a number. -/
structure Restates (token other : Token) : Prop where
  kind : token.kind = other.kind
  literal : token.literal = other.literal
  lexeme : token.kind ≠ .number → token.lexeme = other.lexeme

theorem IsGenuine.restates_printed {token : Token} (genuine : token.IsGenuine)
    (finite : token.isFinite = true) : token.Restates token.printed := by
  by_cases kind : token.kind = .number
  · obtain ⟨x, literal⟩ := genuine.literal_of_number kind
    have whole : x.isFinite = true := by simpa [isFinite, literal] using finite
    constructor
    · simp [Token.printed, kind, literal, whole]
    · simp [Token.printed, kind, literal, whole]
    · exact fun noNumber => absurd kind noNumber
  · rw [printed_of_kind kind]
    exact ⟨rfl, rfl, fun _ => rfl⟩

/-- Forgetting the line of the other token makes no difference. -/
theorem Restates.of_unlined {token other : Token} (restates : token.Restates other.unlined) :
    token.Restates other :=
  ⟨restates.kind, restates.literal, restates.lexeme⟩

end Token

/-! ### The tokens of what is read back -/

namespace Grammar

theorem Phrase.tokens_printed {phrase : Phrase} (kept : phrase.badTargets = []) :
    phrase.printed.tokens = phrase.tokens.map Token.printed := by
  induction phrase with
  | atom => rfl
  | parens _ _ _ ih | unary _ _ ih => simp [printed, tokens, ih kept]
  | binary _ _ _ ihLeft ihRight =>
    obtain ⟨left, right⟩ := List.append_eq_nil_iff.mp kept
    simp [printed, tokens, ihLeft left, ihRight right]
  | assign target equals value ihTarget ihValue =>
    simp only [badTargets, List.append_eq_nil_iff] at kept
    obtain ⟨⟨targetKept, valueKept⟩, accepted⟩ := kept
    -- The target is a name, or the assignment would have been rejected.
    have named : target.name?.isSome = true := by
      cases given : target.name? with
      | some name => rfl
      | none => simp [given] at accepted
    simp [printed, named, tokens, ihTarget targetKept, ihValue valueKept]

namespace Clause

mutual

theorem tokens_printed (clause : Clause) (kept : clause.badTargets = []) :
    clause.printed.tokens = clause.tokens.map Token.printed := by
  match clause with
  | .var .. => rfl
  | .varInit _ _ _ value _ | .expression value _ | .print _ value _ =>
    simp [printed, tokens, value.tokens_printed kept]
  | .block _ body _ => simp [printed, tokens, allTokens_allPrinted body kept]
  | .ifThen _ _ condition _ consequent =>
    obtain ⟨conditionKept, branchKept⟩ := List.append_eq_nil_iff.mp kept
    simp [printed, tokens, condition.tokens_printed conditionKept,
      tokens_printed consequent branchKept]
  | .ifElse _ _ condition _ consequent _ alternative =>
    simp only [badTargets, List.append_eq_nil_iff] at kept
    obtain ⟨⟨conditionKept, branchKept⟩, otherKept⟩ := kept
    simp [printed, tokens, condition.tokens_printed conditionKept,
      tokens_printed consequent branchKept, tokens_printed alternative otherKept]

theorem allTokens_allPrinted (clauses : List Clause) (kept : allBadTargets clauses = []) :
    allTokens (allPrinted clauses) = (allTokens clauses).map Token.printed := by
  match clauses with
  | [] => rfl
  | first :: rest =>
    obtain ⟨firstKept, restKept⟩ := List.append_eq_nil_iff.mp kept
    simp [allPrinted, allTokens, tokens_printed first firstKept,
      allTokens_allPrinted rest restKept]

end

end Clause
end Grammar

/-- The tokens of a printed program, with their lines forgotten. -/
theorem scan_render_unlined {source : String} (parses : (parse source).errors = []) :
    (scan (Program.render (parse source).program)).errors = [] ∧
      (scan (Program.render (parse source).program)).tokens.map Token.unlined =
        (scan source).tokens.map Token.printed := by
  have noErrors : (ofTokens (scan source).tokens).errors = [] := by
    simpa [parse] using congrArg (List.drop (scan source).errors.length) parses
  obtain ⟨clauses, ⟨derived, whole⟩, kept, program⟩ := exists_derives noErrors
  have marked := scan_tokens_eq source
  have genuine : Genuine (segmentTokens (pieces source.toList)) := fun _ => isGenuine_of_mem_scan
  -- The derivation has all tokens of the text but the mark of the end.
  rw [Grammar.text, marked, takeWhile_genuine genuine rfl] at whole
  rw [← whole] at genuine
  have back := Clause.allReadBack fun clause member =>
    (derived clause member).readsBack (Clause.genuine_of_mem genuine member)
  have text : Program.render (parse source).program =
      Program.text (Clause.allStmts (Clause.allPrinted clauses)) := by
    rw [Program.render_eq, back.programText, ← program]
    rfl
  have spells := spells_program back.derived (Clause.canonical_allPrinted clauses genuine)
    (Clause.allBadTargets_printed clauses)
  rw [← text] at spells
  obtain ⟨clean, tokens⟩ := scan_of_spells spells
  constructor
  · exact clean
  · rw [tokens, Clause.allTokens_allPrinted clauses kept, marked, ← whole, List.map_append]
    rfl

/-- **Printing keeps the tokens.** A text that is a program without infinite numbers is printed
as a text without errors that has the same tokens, in the same order, with the same kinds and
literals and, numbers apart, with the same lexemes. -/
theorem scan_render (source : String) (parses : (parse source).errors = [])
    (finite : ∀ token ∈ (scan source).tokens, token.isFinite = true) :
    (scan (Program.render (parse source).program)).errors = [] ∧
      List.Forall₂ Token.Restates (scan source).tokens
        (scan (Program.render (parse source).program)).tokens := by
  obtain ⟨noErrors, same⟩ := scan_render_unlined parses
  refine ⟨noErrors, ?_⟩
  -- A token restates the one that it is printed as, and that is the one on another line.
  have each : ∀ token ∈ (scan source).tokens, token.Restates token.printed := by
    intro token member
    have whole := finite token member
    rw [scan_tokens_eq] at member
    rcases List.mem_append.mp member with inside | last
    · exact (isGenuine_of_mem_scan inside).restates_printed whole
    -- The mark of the end is no token of the text, and is the same for all texts.
    · obtain rfl := List.mem_singleton.mp last
      exact ⟨rfl, rfl, fun _ => rfl⟩
  have alike : List.Forall₂ Token.Restates (scan source).tokens
      ((scan source).tokens.map Token.printed) :=
    List.forall₂_map_right_iff.mpr (List.forall₂_same.mpr each)
  rw [← same, List.forall₂_map_right_iff] at alike
  exact alike.imp fun _ _ => Token.Restates.of_unlined

/-- Comments, blanks and the spelling of a number are all that is lost. -/
theorem scan_render_branches :
    (parse "if (1.50 > x) \x7b\n  y = \"b\"; // yes\n\x7d else print -(0);").errors = [] ∧
    (∀ token ∈ (scan "if (1.50 > x) \x7b\n  y = \"b\"; // yes\n\x7d else print -(0);").tokens,
      token.isFinite = true) ∧
    (scan "if (1.5 > x) \x7b y = \"b\"; \x7d else print -(0);\n").errors = [] ∧
    List.Forall₂ Token.Restates
      (scan "if (1.50 > x) \x7b\n  y = \"b\"; // yes\n\x7d else print -(0);").tokens
      (scan "if (1.5 > x) \x7b y = \"b\"; \x7d else print -(0);\n").tokens := by
  have parses :
      (parse "if (1.50 > x) \x7b\n  y = \"b\"; // yes\n\x7d else print -(0);").errors = [] := by
    decide +kernel
  have finite : ∀ token ∈
      (scan "if (1.50 > x) \x7b\n  y = \"b\"; // yes\n\x7d else print -(0);").tokens,
      token.isFinite = true := by
    decide +kernel
  have printed : Program.render
      (parse "if (1.50 > x) \x7b\n  y = \"b\"; // yes\n\x7d else print -(0);").program =
        "if (1.5 > x) \x7b y = \"b\"; \x7d else print -(0);\n" := by
    decide +kernel
  refine ⟨parses, finite, ?_⟩
  rw [← printed]
  exact scan_render _ parses finite

end BlockScript
