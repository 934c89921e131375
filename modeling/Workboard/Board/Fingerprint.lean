import Workboard.Board.Codec
import Workboard.Digest.Sha256

/-! The fingerprint of a board: the digest of its compact JSON text, keys ascending and every number in
binary64. Equal boards have equal fingerprints. -/

namespace Workboard

/-- The text that a fingerprint is taken of. -/
def Board.canonicalText (b : Board) : String := b.toJson.widen.compress

/-- The digest of the canonical text, thirty-two bytes. -/
def Board.fingerprint (b : Board) : List UInt8 := Sha256.digest b.canonicalText.toUTF8.toList

end Workboard
