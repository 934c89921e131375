import Workboard.Json.Numeral

/-! The lexemes of JSON text.

`Lexeme.ofText` cuts a text into brackets, separators, words, numbers and strings. It stops at the first
thing that is none of these, and records what is wrong there. Two faults are not decided here: a number
beyond the range of binary64 and a string with half of a surrogate pair are faults only for a reader that
uses the value, so such a lexeme merely lacks its value. -/

namespace Workboard

/-- What stands where a value that cannot be read should start. -/
inductive Start where
  | absent
  | quoted
  | bare
  deriving DecidableEq, Repr

inductive Lexeme where
  | openArray
  | closeArray
  | openObject
  | closeObject
  | comma
  | colon
  | null
  | bool (b : Bool)
  /-- A number literal, with its value if that is in range. -/
  | number (value : Option JsonNumber)
  /-- A string, with its content if its escapes are whole characters. -/
  | text (content : Option String)
  /-- Nothing legible, with the fault for a reader that uses the value and for one that skips it. -/
  | broken (start : Start) (used skipped : Fault)

namespace Lexeme

/-! ### Strings -/

/-- The content of a string so far, last character first; none once half of a pair was met. -/
abbrev Content := Option (List Char)

/-- Where a reader stands inside a string. -/
inductive TextState where
  | plain (s : Content)
  /-- Behind a backslash, perhaps with the first half of a pair waiting for the second. -/
  | escape (s : Content) (lead : Option Nat)
  /-- Inside the four digits of a code unit. -/
  | digits (s : Content) (lead : Option Nat) (left : Nat) (unit : Nat)
  /-- Behind the first half of a pair. -/
  | paired (s : Content) (lead : Nat)

/-- What one character does to a string. -/
inductive TextStep where
  | next (state : TextState)
  | closed (s : Content)
  | failed (s : Content) (f : Fault)

def hexValue? (c : Char) : Option Nat :=
  if '0' ≤ c && c ≤ '9' then some (c.toNat - 48)
  else if 'a' ≤ c && c ≤ 'f' then some (c.toNat - 87)
  else if 'A' ≤ c && c ≤ 'F' then some (c.toNat - 55)
  else none

def isLead (n : Nat) : Bool := 0xd800 ≤ n && n < 0xdc00

def isTrail (n : Nat) : Bool := 0xdc00 ≤ n && n < 0xe000

/-- The character of a surrogate pair. -/
def joined (lead trail : Nat) : Char := .ofNat (0x10000 + (lead - 0xd800) * 0x400 + (trail - 0xdc00))

/-- The character of a one-letter escape. -/
def escaped? : Char → Option Char
  | '"' => some '"'
  | '\\' => some '\\'
  | '/' => some '/'
  | 'b' => some '\x08'
  | 'f' => some '\x0c'
  | 'n' => some '\n'
  | 'r' => some '\r'
  | 't' => some '\t'
  | _ => none

/-- Whether fewer than four bytes are left, so that no code unit fits. -/
def cutShort (rest : List Char) : Bool := (rest.take 4).foldl (fun n c => n + c.utf8Size) 0 < 4

namespace TextState

def content : TextState → Content
  | plain s => s
  | escape s _ => s
  | digits s _ _ _ => s
  | paired s _ => s

/-- A character of a string outside escapes. -/
def plainStep (s : Content) (c : Char) : TextStep :=
  if c = '"' then .closed s
  else if c = '\\' then .next (.escape s none)
  else if c.toNat < 0x20 then .failed s .malformed
  else .next (.plain (s.map (c :: ·)))

/-- A character behind a backslash. -/
def escapeStep (s : Content) (lead : Option Nat) (c : Char) (rest : List Char) : TextStep :=
  if c = 'u' then if cutShort rest then .failed s .unfinished else .next (.digits s lead 4 0)
  else
    match escaped? c with
    | some x => .next (.plain (if lead.isSome then none else s.map (x :: ·)))
    | none => .failed (if lead.isSome then none else s) .malformed

/-- The state behind a complete code unit. -/
def behindUnit (s : Content) (lead : Option Nat) (unit : Nat) : TextState :=
  match lead with
  | some m => .plain (if isTrail unit then s.map (joined m unit :: ·) else none)
  | none =>
    if isLead unit then .paired s unit
    else .plain (if isTrail unit then none else s.map (Char.ofNat unit :: ·))

def step (c : Char) (rest : List Char) : TextState → TextStep
  | plain s => plainStep s c
  | escape s lead => escapeStep s lead c rest
  -- The second half of a pair has to follow at once.
  | paired s lead => if c = '\\' then .next (.escape s (some lead)) else plainStep none c
  | digits s lead left unit =>
    match hexValue? c with
    | none => .failed s .malformed
    | some d => .next (if left ≤ 1 then behindUnit s lead (16 * unit + d) else .digits s lead (left - 1) (16 * unit + d))

end TextState

/-- A string that breaks off. A reader that uses it has met an earlier half of a pair first. -/
def brokenText (s : Content) (f : Fault) : Lexeme := .broken .quoted (if s.isSome then f else .malformed) f

/-- Reads a string behind its opening quote. -/
def readText (state : TextState) : List Char → Lexeme × List Char
  | [] => (brokenText state.content .unfinished, [])
  | c :: r =>
    match state.step c r with
    | .next state => readText state r
    | .closed s => (.text (s.map fun l => .ofList l.reverse), r)
    | .failed s f => (brokenText s f, [])

/-! ### Words, numbers and punctuation -/

/-- The blanks between lexemes. -/
def isBlank (c : Char) : Bool := c = ' ' || c = '\n' || c = '\t' || c = '\r'

/-- Reads the given letters. -/
def readWord (word : Lexeme) : List Char → List Char → Lexeme × List Char
  | [], r => (word, r)
  | _ :: _, [] => (.broken .bare .unfinished .unfinished, [])
  | w :: ws, c :: r => if c = w then readWord word ws r else (.broken .bare .malformed .malformed, [])

/-- Reads a number. One that breaks off is malformed for a reader that skips it, also at the end of the text. -/
def readNumber (text : List Char) : Lexeme × List Char :=
  match Numeral.read text with
  | .ok (n, r) => (.number n.value, r)
  | .error f => (.broken .bare f .malformed, [])

/-- Reads the lexeme that starts with a character that is no blank. -/
def readOne (c : Char) (r : List Char) : Lexeme × List Char :=
  match c with
  | '[' => (.openArray, r)
  | ']' => (.closeArray, r)
  | '\x7b' => (.openObject, r)
  | '\x7d' => (.closeObject, r)
  | ',' => (.comma, r)
  | ':' => (.colon, r)
  | '"' => readText (.plain (some [])) r
  | 'n' => readWord .null ['u', 'l', 'l'] r
  | 't' => readWord (.bool true) ['r', 'u', 'e'] r
  | 'f' => readWord (.bool false) ['a', 'l', 's', 'e'] r
  | c => if c = '-' || Numeral.isDigit c then readNumber (c :: r) else (.broken .bare .malformed .malformed, [])

/-- The lexemes of a text, at most `fuel` of its characters deep. -/
def readAll : Nat → List Char → List Lexeme
  | 0, _ => []
  | _, [] => []
  | fuel + 1, c :: r =>
    if isBlank c then readAll fuel r
    else (readOne c r).1 :: readAll fuel (readOne c r).2

/-- The lexemes of a text. Every lexeme takes at least one character, so the length is fuel enough. -/
def ofText (text : List Char) : List Lexeme := readAll text.length text

end Lexeme

end Workboard
