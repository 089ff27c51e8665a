/-!
# Blank text

The characters with the Unicode property White_Space, and the texts that consist of
nothing else.
-/
namespace BlockScript.Text

/-- The code points with the property White_Space, as ranges with both ends included. -/
def whiteSpace : List (Nat × Nat) :=
  [(0x09, 0x0d), (0x20, 0x20), (0x85, 0x85), (0xa0, 0xa0), (0x1680, 0x1680),
    (0x2000, 0x200a), (0x2028, 0x2029), (0x202f, 0x202f), (0x205f, 0x205f),
    (0x3000, 0x3000)]

def isWhiteSpace (c : Char) : Bool :=
  whiteSpace.any fun (first, last) => first ≤ c.toNat && c.toNat ≤ last

def isBlank (text : String) : Bool :=
  text.toList.all isWhiteSpace

end BlockScript.Text
