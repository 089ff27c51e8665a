import BlockScript.Proofs.Number.Parse
import BlockScript.Source.Piece

/-!
# The texts of tokens

Which texts are tokens, said without reading any: a symbol or a keyword is spelled in
one way, and a name, a string or a numeral is any text of its form.

## Main results

`cut_lawful`: a piece cut off a text has the form that its sort demands.
`cut_lexeme`: a token is cut off a text in one piece if what follows cannot continue it.
`isLexeme_cons_iff`: both together decide which texts are lexemes.

## Proof strategy

The first two go by cases on the first character. The forms of different kinds begin with
different characters, so one of them at most can be meant.
-/

namespace BlockScript

/-- The texts of the tokens of a kind, and the value that a token with this text
carries. -/
inductive Lexeme : TokenKind → Option Literal → List Char → Prop where
  | symbol (symbol : Symbol) : Lexeme (.symbol symbol) none symbol.spelling
  | keyword (word : Keyword) : Lexeme (.keyword word) none word.spelling.toList
  | identifier {first : Char} {rest : List Char} (start : Character.isWordStart first = true)
      (parts : ∀ c ∈ rest, Character.isWordPart c = true)
      (free : ∀ word : Keyword, word.spelling ≠ String.ofList (first :: rest)) :
      Lexeme .identifier none (first :: rest)
  | string {body : List Char} (unquoted : '"' ∉ body) :
      Lexeme .string (some (.string (String.ofList body))) ('"' :: body ++ ['"'])
  | number {whole fraction : List Char} (form : Number.IsNumeral whole fraction) :
      Lexeme .number (some (.number (Number.ofNumeral whole fraction)))
        (Number.numeral whole fraction)

/-- Whether a text is the text of a token. -/
def IsLexeme (text : List Char) : Prop :=
  ∃ kind literal, Lexeme kind literal text

/-- A token whose text and value are those of its kind. -/
def Token.IsGenuine (token : Token) : Prop :=
  Lexeme token.kind token.literal token.lexeme.toList

theorem Lexeme.kind_ne_endOfInput {kind : TokenKind} {literal : Option Literal}
    {text : List Char} (lexeme : Lexeme kind literal text) : kind ≠ .endOfInput := by
  cases lexeme <;> simp

/-! ### First characters -/

namespace Character

variable {c : Char}

theorem ne_of_isWordStart (start : isWordStart c = true) :
    isBlank c = false ∧ c ≠ '"' ∧ isDigit c = false := by
  refine ⟨?_, ?_, ?_⟩
  · by_contra blank
    simp only [isBlank, Bool.not_eq_false, Bool.or_eq_true, decide_eq_true_eq] at blank
    rcases blank with ((rfl | rfl) | rfl) | rfl <;> exact absurd start (by decide)
  · rintro rfl
    exact absurd start (by decide)
  · by_contra digit
    simp only [isWordStart, isDigit, Bool.not_eq_false, Bool.or_eq_true, Bool.and_eq_true,
      decide_eq_true_eq] at start digit
    -- The digits come before the letters.
    rcases start with (lower | upper) | rfl
    · exact absurd (Char.le_trans lower.1 digit.2) (by decide)
    · exact absurd (Char.le_trans upper.1 digit.2) (by decide)
    · exact absurd digit.2 (by decide)

theorem ne_of_isDigit (digit : isDigit c = true) : isBlank c = false ∧ c ≠ '"' := by
  constructor
  · by_contra blank
    simp only [isBlank, Bool.not_eq_false, Bool.or_eq_true, decide_eq_true_eq] at blank
    rcases blank with ((rfl | rfl) | rfl) | rfl <;> exact absurd digit (by decide)
  · rintro rfl
    exact absurd digit (by decide)

/-- A blank continues no token that has begun. -/
theorem ne_of_isBlank (blank : isBlank c = true) :
    isDigit c = false ∧ isWordPart c = false ∧ c ≠ '.' ∧ c ≠ '=' ∧ c ≠ '/' := by
  simp only [isBlank, Bool.or_eq_true, decide_eq_true_eq] at blank
  rcases blank with ((rfl | rfl) | rfl) | rfl <;> decide

end Character

namespace Symbol

/-- The first character of a symbol is a symbol itself, and begins nothing else. -/
theorem spelling_eq_cons (symbol : Symbol) :
    ∃ first rest, symbol.spelling = first :: rest ∧ (ofChar? first).isSome = true ∧
      Character.isBlank first = false ∧ first ≠ '"' ∧ Character.isDigit first = false ∧
      Character.isWordStart first = false := by
  cases symbol <;> exact ⟨_, _, rfl, rfl, rfl, by decide, rfl, rfl⟩

end Symbol

namespace Keyword

theorem spelling_eq_cons (word : Keyword) :
    ∃ first rest, word.spelling.toList = first :: rest ∧
      Character.isWordStart first = true ∧ ∀ c ∈ rest, Character.isWordPart c = true := by
  cases word <;> exact ⟨_, _, rfl, rfl, List.all_eq_true.mp rfl⟩

end Keyword

theorem Lexeme.ne_nil {kind : TokenKind} {literal : Option Literal} {text : List Char}
    (lexeme : Lexeme kind literal text) : text ≠ [] := by
  cases lexeme with
  | symbol symbol =>
    obtain ⟨_, _, spelled, _⟩ := symbol.spelling_eq_cons
    simp [spelled]
  | keyword word =>
    obtain ⟨_, _, spelled, _⟩ := word.spelling_eq_cons
    simp [spelled]
  | identifier | string => simp
  | number form =>
    obtain ⟨first, rest, rfl, _⟩ := Number.numeral_eq_cons form
    simp [Number.numeral_cons]

/-- The first character of a lexeme says of which form it is. -/
theorem Lexeme.head_cases {kind : TokenKind} {literal : Option Literal} {c : Char}
    {rest : List Char} (lexeme : Lexeme kind literal (c :: rest)) :
    (∃ symbol : Symbol, symbol.spelling = c :: rest) ∨ Character.isWordStart c = true ∨
      Character.isDigit c = true ∨ (c = '"' ∧ '"' ∈ rest) := by
  generalize spelled : c :: rest = text at lexeme
  cases lexeme with
  | symbol symbol => exact .inl ⟨symbol, rfl⟩
  | keyword word =>
    obtain ⟨first, _, same, start, -⟩ := word.spelling_eq_cons
    obtain ⟨rfl, -⟩ := List.cons.inj (spelled.trans same)
    exact .inr (.inl start)
  | identifier start =>
    obtain ⟨rfl, -⟩ := List.cons.inj spelled
    exact .inr (.inl start)
  | string =>
    obtain ⟨rfl, rfl⟩ := List.cons.inj spelled
    exact .inr (.inr (.inr ⟨rfl, by simp⟩))
  | number form =>
    obtain ⟨first, whole, rfl, digit⟩ := Number.numeral_eq_cons form
    rw [Number.numeral_cons] at spelled
    obtain ⟨rfl, -⟩ := List.cons.inj spelled
    exact .inr (.inr (.inl digit))

/-! ### Cutting a token off -/

/-- What may follow a token of a kind without being taken for a part of it. -/
def TokenKind.EndsBefore (kind : TokenKind) (rest : List Char) : Prop :=
  match kind with
  | .symbol .bang | .symbol .assign | .symbol .greater | .symbol .less => rest.head? ≠ some '='
  | .symbol .slash => rest.head? ≠ some '/'
  | .keyword _ | .identifier => ∀ c, rest.head? = some c → Character.isWordPart c = false
  | .number => ∀ c, rest.head? = some c → Character.isDigit c = false ∧ c ≠ '.'
  | _ => True

namespace TokenKind

variable (kind : TokenKind)

theorem endsBefore_nil : kind.EndsBefore [] := by
  unfold EndsBefore
  split <;> simp

theorem endsBefore_blank {c : Char} (blank : Character.isBlank c = true) (rest : List Char) :
    kind.EndsBefore (c :: rest) := by
  obtain ⟨noDigit, noWord, noPoint, noEquals, noSlash⟩ := Character.ne_of_isBlank blank
  unfold EndsBefore
  split <;> simp [noDigit, noWord, noPoint, noEquals, noSlash]

end TokenKind

theorem not_mem_takeWhile_ne (c : Char) (text : List Char) : c ∉ text.takeWhile (· ≠ c) :=
  fun member => by simpa using List.mem_takeWhile_imp member

namespace Piece

variable {first : Char} {body rest : List Char}

theorem cut_of_isBlank (blank : Character.isBlank first = true) :
    cut first rest = (⟨.blank, [first]⟩, rest) :=
  if_pos blank

theorem cut_of_isWordStart (start : Character.isWordStart first = true) :
    cut first rest = cutWord first rest := by
  obtain ⟨blank, quote, digit⟩ := Character.ne_of_isWordStart start
  simp [cut, blank, quote, digit, start]

theorem cut_of_isDigit (digit : Character.isDigit first = true) :
    cut first rest = cutNumber first rest := by
  obtain ⟨blank, quote⟩ := Character.ne_of_isDigit digit
  simp [cut, blank, quote, digit]

theorem cut_quote : cut '"' rest = cutString rest := by
  have blank : Character.isBlank '"' = false := by decide
  simp [cut, blank]

/-- Two slashes begin a comment. -/
theorem cut_slashes :
    cut '/' ('/' :: rest) =
      (⟨.comment, '/' :: '/' :: rest.takeWhile (· ≠ '\n')⟩, rest.dropWhile (· ≠ '\n')) := by
  have noPair : Symbol.ofPair? '/' '/' = none := rfl
  have noBlank : Character.isBlank '/' = false := by decide
  have noDigit : Character.isDigit '/' = false := by decide
  have noWord : Character.isWordStart '/' = false := by decide
  simp [cut, cutSymbol, noBlank, noDigit, noWord, noPair]

/-- A comment ends where a newline follows. -/
theorem cut_slashes_append (line : '\n' ∉ body) (ends : ∀ c, rest.head? = some c → c = '\n') :
    cut '/' ('/' :: (body ++ rest)) = (⟨.comment, '/' :: '/' :: body⟩, rest) := by
  have inside : ∀ c ∈ body, decide (c ≠ '\n') = true := fun c member =>
    decide_eq_true (ne_of_mem_of_not_mem member line)
  have stops : ∀ c, rest.head? = some c → decide (c ≠ '\n') = false := by
    simpa using ends
  rw [cut_slashes, takeWhile_append inside stops, dropWhile_append inside stops]

/-- A word ends where no part of a word follows. -/
theorem cutWord_append (parts : ∀ c ∈ body, Character.isWordPart c = true)
    (stops : ∀ c, rest.head? = some c → Character.isWordPart c = false) :
    cutWord first (body ++ rest) =
      (⟨.token (match Keyword.ofSpelling? (String.ofList (first :: body)) with
        | some keyword => .keyword keyword
        | none => .identifier) none, first :: body⟩, rest) := by
  cases found : Keyword.ofSpelling? (String.ofList (first :: body)) with
  | none =>
    simp only [cutWord, takeWhile_append parts stops, dropWhile_append parts stops, found]
  | some word =>
    simp only [cutWord, takeWhile_append parts stops, dropWhile_append parts stops, found]

theorem cutString_append (unquoted : '"' ∉ body) :
    cutString (body ++ '"' :: rest) =
      (⟨.token .string (some (.string (String.ofList body))), '"' :: body ++ ['"']⟩, rest) := by
  have inside : ∀ c ∈ body, decide (c ≠ '"') = true := fun c member =>
    decide_eq_true (ne_of_mem_of_not_mem member unquoted)
  have stops : ∀ c, ('"' :: rest).head? = some c → decide (c ≠ '"') = false := by
    simp
  simp only [cutString, takeWhile_append inside stops, dropWhile_append inside stops]

/-- A numeral stands for a number, so it is a token. -/
theorem ofNumeral_numeral {whole fraction : List Char} (form : Number.IsNumeral whole fraction) :
    ofNumeral (Number.numeral whole fraction) =
      ⟨.token .number (some (.number (Number.ofNumeral whole fraction))),
        Number.numeral whole fraction⟩ := by
  simp only [ofNumeral, Number.parse?_numeral form]

/-- A point behind the digits of a numeral belongs to it if a digit follows, and so do all digits
from there on. -/
theorem cutNumber_point {whole : List Char} {digit : Char}
    (digits : ∀ c ∈ whole, Character.isDigit c = true) (decimal : Character.isDigit digit = true) :
    cutNumber first (whole ++ '.' :: digit :: rest) =
      (ofNumeral (Number.numeral (first :: whole) (digit :: rest.takeWhile Character.isDigit)),
        rest.dropWhile Character.isDigit) := by
  have point : ∀ c, ('.' :: digit :: rest).head? = some c → Character.isDigit c = false := by
    intro c head
    obtain rfl : '.' = c := by simpa using head
    decide
  simp [cutNumber, takeWhile_append digits point, dropWhile_append digits point, decimal,
    Number.numeral]

/-- A numeral ends where neither a digit nor a point follows. -/
theorem cutNumber_append {whole fraction : List Char}
    (digits : ∀ c ∈ whole ++ fraction, Character.isDigit c = true)
    (stops : ∀ c, rest.head? = some c → Character.isDigit c = false ∧ c ≠ '.') :
    cutNumber first (Number.numeral whole fraction ++ rest) =
      (ofNumeral (Number.numeral (first :: whole) fraction), rest) := by
  obtain ⟨before, after⟩ := List.forall_mem_append.mp digits
  have ends : ∀ c, rest.head? = some c → Character.isDigit c = false := fun c head =>
    (stops c head).1
  -- Without a fraction, a point that follows would have to be looked behind.
  cases fraction with
  | nil =>
    simp only [cutNumber, Number.numeral, if_true, takeWhile_append before ends,
      dropWhile_append before ends]
    split
    next point digit tail =>
      have apart : point ≠ '.' := (stops point rfl).2
      simp [apart]
    next => rfl
  | cons digit decimals =>
    obtain ⟨decimal, later⟩ := List.forall_mem_cons.mp after
    rw [Number.numeral, if_neg (List.cons_ne_nil _ _), List.append_assoc]
    simp only [List.cons_append, cutNumber_point before decimal, takeWhile_append later ends,
      dropWhile_append later ends]

private theorem cut_symbol (symbol : Symbol) {more : List Char}
    (spelled : symbol.spelling = first :: more)
    (apart : (TokenKind.symbol symbol).EndsBefore rest) :
    cut first (more ++ rest) = (⟨.token (.symbol symbol) none, first :: more⟩, rest) := by
  have short : cut first (more ++ rest) = cutSymbol first (more ++ rest) := by
    obtain ⟨_, _, same, _, blank, quote, digit, start⟩ := symbol.spelling_eq_cons
    obtain ⟨rfl, -⟩ := List.cons.inj (spelled.symm.trans same)
    simp [cut, blank, quote, digit, start]
  rw [short]
  -- A symbol of one character depends on the next one, which may make it longer.
  cases symbol <;> cases spelled <;> cases rest <;>
    simp_all [cutSymbol, cutSingle, Symbol.ofPair?, Symbol.ofChar?, TokenKind.EndsBefore]

/-- A token is cut off in one piece if what follows cannot continue it. -/
theorem cut_lexeme {kind : TokenKind} {literal : Option Literal} {more : List Char}
    (lexeme : Lexeme kind literal (first :: more)) (apart : kind.EndsBefore rest) :
    cut first (more ++ rest) = (⟨.token kind literal, first :: more⟩, rest) := by
  -- The first character of a lexeme decides which way it is cut off.
  generalize spelled : first :: more = text at lexeme
  cases lexeme with
  | symbol symbol => rw [cut_symbol symbol spelled.symm apart, spelled]
  | keyword word =>
    obtain ⟨c, parts, same, start, inside⟩ := word.spelling_eq_cons
    obtain ⟨rfl, rfl⟩ := List.cons.inj (spelled.trans same)
    rw [cut_of_isWordStart start, cutWord_append inside apart, ← same, String.ofList_toList,
      Keyword.ofSpelling?_spelling]
  | identifier start parts free =>
    obtain ⟨rfl, rfl⟩ := List.cons.inj spelled
    -- A name is cut off like a keyword, and then looked up among them.
    have unreserved : Keyword.ofSpelling? (String.ofList (first :: more)) = none := by
      cases found : Keyword.ofSpelling? (String.ofList (first :: more)) with
      | none => rfl
      | some word => exact absurd (Keyword.ofSpelling?_eq_some_iff.mp found) (free word)
    rw [cut_of_isWordStart start, cutWord_append parts apart, unreserved]
  | string unquoted =>
    obtain ⟨rfl, rfl⟩ := List.cons.inj spelled
    change cut '"' (_ ++ ['"'] ++ rest) = _
    rw [List.append_assoc, List.singleton_append, cut_quote, cutString_append unquoted]
  | number form =>
    obtain ⟨c, whole, rfl, digit⟩ := Number.numeral_eq_cons form
    have digits : ∀ c ∈ whole ++ _, Character.isDigit c = true := fun c member =>
      form.digits c (List.mem_cons_of_mem _ member)
    have read := ofNumeral_numeral form
    rw [Number.numeral_cons] at spelled read ⊢
    obtain ⟨rfl, rfl⟩ := List.cons.inj spelled
    rw [cut_of_isDigit digit, cutNumber_append digits apart, Number.numeral_cons, read]

end Piece

/-! ### What a cut finds -/

/-- What a piece may be in front of the pieces `after`. -/
inductive Piece.Lawful : Piece → List Piece → Prop where
  | blank {c : Char} {after : List Piece} (blank : c ∈ [' ', '\r', '\t', '\n']) :
      Lawful ⟨.blank, [c]⟩ after
  | comment {body : List Char} {after : List Piece} (line : '\n' ∉ body)
      (ends : ∀ c, (after.flatMap Piece.text).head? = some c → c = '\n') :
      Lawful ⟨.comment, '/' :: '/' :: body⟩ after
  | token {kind : TokenKind} {literal : Option Literal} {text : List Char} {after : List Piece}
      (lexeme : Lexeme kind literal text) : Lawful ⟨.token kind literal, text⟩ after
  /-- Neither a blank nor the beginning of any token. -/
  | stray {c : Char} {after : List Piece} (visible : c ∉ [' ', '\r', '\t', '\n'])
      (foreign : ∀ kind literal rest, ¬Lexeme kind literal (c :: rest)) :
      Lawful ⟨.stray, [c]⟩ after
  | unterminated {body : List Char} (unclosed : '"' ∉ body) :
      Lawful ⟨.unterminated, '"' :: body⟩ []

namespace Piece.Lawful

variable {piece : Piece} {after : List Piece} (lawful : piece.Lawful after)
include lawful

/-- A string that is not closed is the last piece of a text. -/
theorem eq_nil_of_unterminated (sort : piece.sort = .unterminated) : after = [] := by
  cases lawful with
  | unterminated => rfl
  | _ => cases sort

/-- A comment is followed by a newline, or by nothing. -/
theorem eq_newline_of_comment (sort : piece.sort = .comment) {c : Char}
    (next : (after.flatMap Piece.text).head? = some c) : c = '\n' := by
  cases lawful with
  | comment _ ends => exact ends c next
  | _ => cases sort

/-- Neither a comment nor a stray character goes past its line. -/
theorem newline_not_mem (gap : piece.sort = .comment ∨ piece.sort = .stray) :
    '\n' ∉ piece.text := by
  cases lawful with
  | comment line => simpa using line
  | stray visible =>
    rw [List.mem_singleton]
    rintro rfl
    exact visible (by decide)
  | _ => simp at gap

end Piece.Lawful

namespace Piece

variable (first : Char) (rest : List Char)

theorem isBlank_iff {c : Char} :
    Character.isBlank c = true ↔ c ∈ [' ', '\r', '\t', '\n'] := by
  simp [Character.isBlank, or_assoc]

/-- A string is closed by the first quote, or else runs to the end of the text. -/
theorem cutString_lawful : (cutString rest).1.Lawful (pieces (cutString rest).2) := by
  have unquoted := not_mem_takeWhile_ne '"' rest
  unfold cutString
  split
  next =>
    rw [pieces_nil]
    exact .unterminated unquoted
  next quote after closed =>
    have isQuote : quote = '"' := by
      have stopped := List.head?_dropWhile_not (fun c => decide (c ≠ '"')) rest
      rw [closed] at stopped
      simpa using stopped
    subst isQuote
    exact .token (.string unquoted)

theorem ofNumeral_lawful {whole fraction : List Char} (form : Number.IsNumeral whole fraction)
    (after : List Piece) : (ofNumeral (Number.numeral whole fraction)).Lawful after := by
  rw [ofNumeral_numeral form]
  exact .token (.number form)

/-- What is cut off as a numeral is one, so it stands for a number. -/
theorem cutNumber_lawful (digit : Character.isDigit first = true) :
    (cutNumber first rest).1.Lawful (pieces (cutNumber first rest).2) := by
  have whole : ∀ c ∈ first :: rest.takeWhile Character.isDigit, Character.isDigit c = true := by
    intro c member
    rcases List.mem_cons.mp member with rfl | later
    · exact digit
    · exact List.mem_takeWhile_imp later
  have integral : Number.IsNumeral (first :: rest.takeWhile Character.isDigit) [] :=
    ⟨List.cons_ne_nil _ _, by simpa using whole⟩
  unfold cutNumber
  split
  next point decimal after left =>
    split
    next pointed =>
      have decimals : ∀ c ∈ decimal :: after.takeWhile Character.isDigit,
          Character.isDigit c = true := by
        intro c member
        rcases List.mem_cons.mp member with rfl | later
        · exact pointed.2
        · exact List.mem_takeWhile_imp later
      obtain ⟨rfl, -⟩ := pointed
      have form : Number.IsNumeral (first :: rest.takeWhile Character.isDigit)
          (decimal :: after.takeWhile Character.isDigit) :=
        ⟨List.cons_ne_nil _ _, fun c member =>
          (List.mem_append.mp member).elim (whole c) (decimals c)⟩
      exact ofNumeral_lawful form _
    next => exact ofNumeral_lawful integral _
  next => exact ofNumeral_lawful integral _

theorem cutWord_lawful (start : Character.isWordStart first = true) :
    (cutWord first rest).1.Lawful (pieces (cutWord first rest).2) := by
  have parts : ∀ c ∈ rest.takeWhile Character.isWordPart, Character.isWordPart c = true :=
    fun c member => List.mem_takeWhile_imp member
  unfold cutWord
  dsimp only
  split
  next word reserved =>
    have spelled := Keyword.ofSpelling?_eq_some_iff.mp reserved
    have lexeme := Lexeme.keyword word
    rw [spelled, String.toList_ofList] at lexeme
    exact .token lexeme
  next unreserved =>
    refine .token (.identifier start parts ?_)
    intro word spelled
    rw [← spelled, Keyword.ofSpelling?_spelling] at unreserved
    exact absurd unreserved (by simp)

/-- A character that begins none of the other pieces begins no token either. -/
theorem cutSingle_lawful (blank : Character.isBlank first = false) (quote : first ≠ '"')
    (digit : Character.isDigit first = false) (start : Character.isWordStart first = false) :
    (cutSingle first rest).1.Lawful (pieces (cutSingle first rest).2) := by
  unfold cutSingle
  split
  next symbol known =>
    have lexeme := Lexeme.symbol symbol
    rw [Symbol.spelling_of_ofChar? known] at lexeme
    exact .token lexeme
  next unknown =>
    refine .stray (fun member => ?_) ?_
    -- It would have been cut off as a blank.
    · rw [isBlank_iff.mpr member] at blank
      exact absurd blank (by decide)
    -- Each form of lexemes begins with a character that is ruled out.
    · intro kind literal more lexeme
      rcases lexeme.head_cases with ⟨symbol, spelled⟩ | begins | begins | ⟨isQuote, -⟩
      · obtain ⟨_, _, same, known, -⟩ := symbol.spelling_eq_cons
        obtain ⟨rfl, -⟩ := List.cons.inj (spelled.symm.trans same)
        simp [unknown] at known
      · simp [start] at begins
      · simp [digit] at begins
      · exact quote isQuote

theorem cutSymbol_lawful (blank : Character.isBlank first = false) (quote : first ≠ '"')
    (digit : Character.isDigit first = false) (start : Character.isWordStart first = false) :
    (cutSymbol first rest).1.Lawful (pieces (cutSymbol first rest).2) := by
  have single := cutSingle_lawful first rest blank quote digit start
  unfold cutSymbol
  split
  next second after =>
    split
    next symbol known =>
      have lexeme := Lexeme.symbol symbol
      rw [Symbol.spelling_of_ofPair? known] at lexeme
      exact .token lexeme
    next =>
      split
      next slashes =>
        obtain ⟨rfl, rfl⟩ := slashes
        refine .comment (not_mem_takeWhile_ne '\n' after) ?_
        intro c head
        rw [flatMap_text_pieces] at head
        have stopped := List.head?_dropWhile_not (fun c => decide (c ≠ '\n')) ('/' :: after)
        rw [head] at stopped
        simpa using stopped
      next => exact single
  next => exact single

/-- A piece cut off a text has the form that its sort demands. -/
theorem cut_lawful : (cut first rest).1.Lawful (pieces (cut first rest).2) := by
  unfold cut
  split
  next blank => exact .blank (isBlank_iff.mp blank)
  next visible =>
    split
    next => exact cutString_lawful rest
    next quote =>
      split
      next digit => exact cutNumber_lawful first rest digit
      next noDigit =>
        split
        next start => exact cutWord_lawful first rest start
        next noStart =>
          exact cutSymbol_lawful first rest (by simpa using visible) quote (by simpa using noDigit)
            (by simpa using noStart)

end Piece

/-! ### Whole lexemes -/

def PieceSort.isToken : PieceSort → Bool
  | .token _ _ => true
  | _ => false

/-- A text is a lexeme if it is cut off as a token, and nothing is left. -/
theorem isLexeme_cons_iff {first : Char} {rest : List Char} :
    IsLexeme (first :: rest) ↔
      (Piece.cut first rest).1.sort.isToken = true ∧ (Piece.cut first rest).2 = [] := by
  constructor
  · rintro ⟨kind, literal, lexeme⟩
    have alone := Piece.cut_lexeme lexeme kind.endsBefore_nil
    rw [List.append_nil] at alone
    rw [alone]
    exact ⟨rfl, rfl⟩
  · rintro ⟨token, last⟩
    have parts := Piece.cut_text first rest
    rw [last, List.append_nil] at parts
    have lawful := Piece.cut_lawful first rest
    rw [← parts]
    generalize (Piece.cut first rest).1 = piece, pieces _ = after at token lawful ⊢
    cases lawful with
    | token lexeme => exact ⟨_, _, lexeme⟩
    | _ => cases token

instance : DecidablePred IsLexeme
  | [] => .isFalse fun ⟨_, _, lexeme⟩ => lexeme.ne_nil rfl
  | _ :: _ => decidable_of_iff _ isLexeme_cons_iff.symm

end BlockScript
