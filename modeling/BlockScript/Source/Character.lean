/-!
# Classes of characters

Which characters make up blanks, numerals and words. Every class is a set of ASCII
characters; a letter or a space of any other alphabet belongs to none of them.
-/
namespace BlockScript.Character

/-- The characters that only separate tokens. -/
def isBlank (c : Char) : Bool :=
  c = ' ' || c = '\r' || c = '\t' || c = '\n'

def isDigit (c : Char) : Bool :=
  '0' ≤ c && c ≤ '9'

/-- The characters with which a word begins. -/
def isWordStart (c : Char) : Bool :=
  'a' ≤ c && c ≤ 'z' || 'A' ≤ c && c ≤ 'Z' || c = '_'

def isWordPart (c : Char) : Bool :=
  isWordStart c || isDigit c

end BlockScript.Character
