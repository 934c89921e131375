/-! White space, as Unicode's property White_Space has it, and the text between outer white space. -/

namespace Workboard.Text

/-- The characters with the property White_Space. -/
def isBlank (c : Char) : Bool :=
  let n := c.toNat
  (9 ≤ n && n ≤ 13) || n = 0x20 || n = 0x85 || n = 0xa0 || n = 0x1680 || (0x2000 ≤ n && n ≤ 0x200a)
    || n = 0x2028 || n = 0x2029 || n = 0x202f || n = 0x205f || n = 0x3000

/-- A text without the white space at its end. -/
def trimEndChars (l : List Char) : List Char := (l.reverse.dropWhile isBlank).reverse

/-- A text without the white space at either end. -/
def trimChars (l : List Char) : List Char := trimEndChars (l.dropWhile isBlank)

def trim (s : String) : String := .ofList (trimChars s.toList)

def trimEnd (s : String) : String := .ofList (trimEndChars s.toList)

/-- Whether a text has nothing but white space. -/
def isAllBlank (s : String) : Bool := s.toList.all isBlank

/-- ASCII capitals as small letters; other characters stay. -/
def asciiLower (s : String) : String := .ofList (s.toList.map Char.toLower)

end Workboard.Text
