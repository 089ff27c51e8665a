/-!
# Kinds of tokens

Symbols and keywords are closed classes: each has exactly one spelling. The other
kinds are open, and two tokens of such a kind differ by their text.
-/
namespace BlockScript

/-- Punctuation and operators. -/
inductive Symbol where
  | leftParen | rightParen | leftBrace | rightBrace
  | comma | dot | minus | plus | semicolon | slash | star
  | bang | notEqual | assign | equal
  | greater | greaterEqual | less | lessEqual
  deriving DecidableEq, Repr

/-- The reserved words. Several of them have no meaning yet; they are reserved all
the same, and some mark where a statement begins. -/
inductive Keyword where
  | and_ | class_ | else_ | false_ | for_ | fun_ | if_ | nil_
  | or_ | print_ | return_ | super_ | this_ | true_ | var_ | while_
  deriving DecidableEq, Repr

inductive TokenKind where
  | symbol (symbol : Symbol)
  | keyword (word : Keyword)
  | identifier
  | string
  | number
  | endOfInput
  deriving DecidableEq, Repr

namespace Symbol

def ofChar? : Char → Option Symbol
  | '(' => some leftParen
  | ')' => some rightParen
  | '{' => some leftBrace
  | '}' => some rightBrace
  | ',' => some comma
  | '.' => some dot
  | '-' => some minus
  | '+' => some plus
  | ';' => some semicolon
  | '/' => some slash
  | '*' => some star
  | '!' => some bang
  | '=' => some assign
  | '>' => some greater
  | '<' => some less
  | _ => none

/-- The symbols of two characters; the second is always an equals sign. -/
def ofPair? : Char → Char → Option Symbol
  | '!', '=' => some notEqual
  | '=', '=' => some equal
  | '>', '=' => some greaterEqual
  | '<', '=' => some lessEqual
  | _, _ => none

def spelling : Symbol → List Char
  | leftParen => ['(']
  | rightParen => [')']
  | leftBrace => ['{']
  | rightBrace => ['}']
  | comma => [',']
  | dot => ['.']
  | minus => ['-']
  | plus => ['+']
  | semicolon => [';']
  | slash => ['/']
  | star => ['*']
  | bang => ['!']
  | notEqual => ['!', '=']
  | assign => ['=']
  | equal => ['=', '=']
  | greater => ['>']
  | greaterEqual => ['>', '=']
  | less => ['<']
  | lessEqual => ['<', '=']

theorem spelling_of_ofChar? {c : Char} {symbol : Symbol} (known : ofChar? c = some symbol) :
    symbol.spelling = [c] := by
  unfold ofChar? at known
  split at known <;> cases known <;> rfl

theorem spelling_of_ofPair? {c d : Char} {symbol : Symbol} (known : ofPair? c d = some symbol) :
    symbol.spelling = [c, d] := by
  unfold ofPair? at known
  split at known <;> cases known <;> rfl

end Symbol

namespace Keyword

def spelling : Keyword → String
  | and_ => "and"
  | class_ => "class"
  | else_ => "else"
  | false_ => "false"
  | for_ => "for"
  | fun_ => "fun"
  | if_ => "if"
  | nil_ => "nil"
  | or_ => "or"
  | print_ => "print"
  | return_ => "return"
  | super_ => "super"
  | this_ => "this"
  | true_ => "true"
  | var_ => "var"
  | while_ => "while"

/-- Every keyword, in the order of their spellings. -/
def all : List Keyword :=
  [and_, class_, else_, false_, for_, fun_, if_, nil_,
   or_, print_, return_, super_, this_, true_, var_, while_]

def ofSpelling? (word : String) : Option Keyword :=
  all.find? (fun keyword => keyword.spelling = word)

@[simp] theorem ofSpelling?_spelling (keyword : Keyword) :
    ofSpelling? keyword.spelling = some keyword := by
  cases keyword <;> rfl

/-- A word is reserved exactly when it is the spelling of a keyword. -/
theorem ofSpelling?_eq_some_iff {word : String} {keyword : Keyword} :
    ofSpelling? word = some keyword ↔ keyword.spelling = word := by
  constructor
  · intro found
    simpa using List.find?_some found
  · rintro rfl
    exact ofSpelling?_spelling keyword

/-- The keywords with which a declaration or a statement begins. Where an error has
spoiled a declaration, reading goes on at one of them. -/
def startsDeclaration : Keyword → Bool
  | class_ | fun_ | var_ | for_ | if_ | while_ | print_ | return_ => true
  | _ => false

end Keyword
end BlockScript
