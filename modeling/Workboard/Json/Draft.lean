import Workboard.Json.Lexeme

/-! What a JSON text shows, faults included.

A text that breaks off still shows a value up to the fault, and a reader that asks for a shape meets
shape errors and faults in text order. `Draft` is the tree of what is there: a fault is a leaf or the
ending of an array or object. `JsonSource.ofText` reads a text into a draft; `Draft.value` is the JSON value
of a draft, `Draft.skip` what is left to complain about in a value that nobody asks for. -/

namespace Workboard

/-- How the reading of an array or object ended: properly, or with the fault for a reader that uses the
    contents and for one that skips them. -/
inductive Ending where
  | closed
  /-- A fault; `announced` if it stands behind a comma, where an object should go on. -/
  | broken (announced : Bool) (used skipped : Fault)
  deriving DecidableEq, Repr

inductive Draft where
  | null
  | bool (b : Bool)
  | number (value : Option JsonNumber)
  | text (content : Option String)
  | array (items : List Draft) (ending : Ending)
  | object (members : List (Option String × Draft)) (ending : Ending)
  | broken (start : Start) (used skipped : Fault)

/-- A text read as one value, and whether more than blanks follows it. -/
structure JsonSource where
  root : Draft
  trailing : Bool

namespace Draft

/-- An array or object that is being read, its contents last first. -/
inductive Frame where
  | array (items : List Draft)
  | object (members : List (Option String × Draft)) (key : Option String)

/-- What is due next. -/
inductive Due where
  /-- A value; right behind an opening bracket the array may also close. -/
  | value (first : Bool)
  /-- A key of the object with these members; right behind an opening brace the object may also close. -/
  | key (members : List (Option String × Draft)) (first : Bool)
  | colon (members : List (Option String × Draft)) (key : Option String)
  /-- Whatever follows a complete value. -/
  | separator (d : Draft)

/-- Puts a value into the arrays and objects around it, none of which goes on. -/
def fill : List Frame → Draft → Draft
  | [], d => d
  | .array items :: s, d => fill s (.array (d :: items).reverse .closed)
  | .object members key :: s, d => fill s (.object ((key, d) :: members).reverse .closed)

/-- A value that starts with the given lexeme, where none may start. -/
def misplaced : Lexeme → Draft
  | .broken start used skipped => .broken start used skipped
  | _ => .broken .bare .malformed .malformed

/-- The end of an object at a lexeme that is no key. A broken string is a broken key. -/
def keyless (first : Bool) : Lexeme → Ending
  | .broken .quoted used skipped => .broken (!first) used skipped
  | _ => .broken (!first) .malformed .malformed

/-- Reads lexemes, each once, with the open arrays and objects around them, innermost first. -/
def assemble : Due → List Frame → List Lexeme → JsonSource
  | .separator d, [], rest => ⟨d, !rest.isEmpty⟩
  | .value _, s, [] => ⟨fill s (.broken .absent .unfinished .unfinished), false⟩
  | .key ms first, s, [] => ⟨fill s (.object ms.reverse (.broken (!first) .unfinished .unfinished)), false⟩
  -- A key that lacks its value is a member with a broken value.
  | .colon ms k, s, [] =>
    ⟨fill s (.object ((k, .broken .absent .unfinished .unfinished) :: ms).reverse .closed), false⟩
  | .separator d, .array items :: s, [] =>
    ⟨fill s (.array (d :: items).reverse (.broken false .unfinished .unfinished)), false⟩
  | .separator d, .object ms k :: s, [] =>
    ⟨fill s (.object ((k, d) :: ms).reverse (.broken false .unfinished .unfinished)), false⟩
  | .value first, s, x :: rest =>
    match x with
    | .null => assemble (.separator .null) s rest
    | .bool b => assemble (.separator (.bool b)) s rest
    | .number v => assemble (.separator (.number v)) s rest
    | .text t => assemble (.separator (.text t)) s rest
    | .openArray => assemble (.value true) (.array [] :: s) rest
    | .openObject => assemble (.key [] true) s rest
    | .closeArray =>
      match first, s with
      -- Behind a comma a value has to come.
      | true, .array items :: s => assemble (.separator (.array items.reverse .closed)) s rest
      | _, s => ⟨fill s (.broken .absent .malformed .malformed), false⟩
    | x => ⟨fill s (misplaced x), false⟩
  | .key ms first, s, x :: rest =>
    match x with
    | .text k => assemble (.colon ms k) s rest
    | .closeObject =>
      if first then assemble (.separator (.object ms.reverse .closed)) s rest
      else ⟨fill s (.object ms.reverse (.broken true .malformed .malformed)), false⟩
    | x => ⟨fill s (.object ms.reverse (keyless first x)), false⟩
  | .colon ms k, s, x :: rest =>
    match x with
    | .colon => assemble (.value false) (.object ms k :: s) rest
    | _ => ⟨fill s (.object ((k, .broken .absent .malformed .malformed) :: ms).reverse .closed), false⟩
  | .separator d, .array items :: s, x :: rest =>
    match x with
    | .comma => assemble (.value false) (.array (d :: items) :: s) rest
    | .closeArray => assemble (.separator (.array (d :: items).reverse .closed)) s rest
    | _ => ⟨fill s (.array (d :: items).reverse (.broken false .malformed .malformed)), false⟩
  | .separator d, .object ms k :: s, x :: rest =>
    match x with
    | .comma => assemble (.key ((k, d) :: ms) false) s rest
    | .closeObject => assemble (.separator (.object ((k, d) :: ms).reverse .closed)) s rest
    | _ => ⟨fill s (.object ((k, d) :: ms).reverse (.broken false .malformed .malformed)), false⟩

end Draft

namespace JsonSource

def ofText (text : String) : JsonSource := Draft.assemble (.value false) [] (Lexeme.ofText text.toList)

/-- Hands the value to a reader and refuses whatever follows it. -/
def read (d : JsonSource) (f : Draft → Except Fault α) : Except Fault α := do
  let x ← f d.root
  if d.trailing then .error .malformed else .ok x

end JsonSource

namespace Draft

/-- A complete value that no reader asks for may hide numbers out of range and halves of pairs, but has to
    be well formed. -/
def Ending.skip : Ending → Except Fault Unit
  | .closed => .ok ()
  | .broken _ _ skipped => .error skipped

mutual

/-- The first fault of a value that nobody asks for. -/
def skip : Draft → Except Fault Unit
  | .array items ending => do skipItems items; Ending.skip ending
  | .object members ending => do skipMembers members; Ending.skip ending
  | .broken _ _ skipped => .error skipped
  | _ => .ok ()

def skipItems : List Draft → Except Fault Unit
  | [] => .ok ()
  | d :: r => do skip d; skipItems r

def skipMembers : List (Option String × Draft) → Except Fault Unit
  | [] => .ok ()
  | (_, d) :: r => do skip d; skipMembers r

end

/-- What a reader that uses the contents finds at the end of an array or object. -/
def Ending.used : Ending → Except Fault Unit
  | .closed => .ok ()
  | .broken _ used _ => .error used

/-- A string that is used. -/
def textValue : Option String → Except Fault String
  | some s => .ok s
  | none => .error .malformed

/-- How many arrays and objects may be nested, plus one. -/
def nestingLimit : Nat := 128

mutual

/-- The JSON value of a draft with fewer than `room` levels of nesting. Of two members at one key the later
    counts. -/
def value (room : Nat) : Draft → Except Fault Json
  | .null => .ok .null
  | .bool b => .ok (.bool b)
  | .number (some n) => .ok (.number n)
  | .number none => .error .malformed
  | .text t => (textValue t).map .string
  | .array items ending =>
    if room ≤ 1 then .error .malformed
    else do
      let items ← valueItems (room - 1) items
      Ending.used ending
      return .array items
  | .object members ending =>
    if room ≤ 1 then .error .malformed
    else do
      let members ← valueMembers (room - 1) members
      Ending.used ending
      return .ofMembers members
  | .broken _ used _ => .error used

def valueItems (room : Nat) : List Draft → Except Fault (List Json)
  | [] => .ok []
  | d :: r => do return (← value room d) :: (← valueItems room r)

def valueMembers (room : Nat) : List (Option String × Draft) → Except Fault (List (String × Json))
  | [] => .ok []
  | (k, d) :: r => do return (← textValue k, ← value room d) :: (← valueMembers room r)

end

mutual

/-- A JSON value shown without faults. -/
def ofJson : Json → Draft
  | .null => .null
  | .bool b => .bool b
  | .number n => .number (some n)
  | .string s => .text (some s)
  | .array items => .array (ofItems items) .closed
  | .object members => .object (ofMembers members) .closed

def ofItems : List Json → List Draft
  | [] => []
  | j :: r => ofJson j :: ofItems r

def ofMembers : List (String × Json) → List (Option String × Draft)
  | [] => []
  | (k, j) :: r => (some k, ofJson j) :: ofMembers r

end

end Draft

/-- Reads a text as a JSON value. -/
def Json.ofText (text : String) : Except Fault Json := (JsonSource.ofText text).read (Draft.value Draft.nestingLimit)

end Workboard
