import Workboard.Json.Draft

/-! Shapes of JSON documents.

A `Shape` says which values a reader takes. `Shape.read` takes a draft apart in text order, so the first
thing that does not fit decides the fault, and returns the value in a normal form: records as objects of
their known fields, choices as strings. `Shape.check` does the same for a JSON value, where every fault is
a mismatch.

A record may also be written as the array of its fields in order, and a choice as an object with one
member that holds nothing. -/

namespace Workboard

/-- Whether a field may be left out. -/
inductive Presence where
  | required
  /-- May be left out of an object, but not of an array. -/
  | nullable
  | optional
  deriving DecidableEq, Repr

mutual

inductive Shape where
  | any
  | text
  | flag
  /-- Any number. -/
  | real
  /-- A whole number within bounds. -/
  | whole (least greatest : Int)
  | choice (names : List String)
  /-- A value or `null`. -/
  | nullable (s : Shape)
  | list (s : Shape)
  | map (s : Shape)
  /-- An array of the given length. -/
  | tuple (length : Nat) (s : Shape)
  /-- A record; a strict one has no other members than its fields. -/
  | record (strict : Bool) (fields : Fields)

inductive Fields where
  | nil
  | cons (name : String) (presence : Presence) (shape : Shape) (rest : Fields)

end

namespace Fields

/-- The fields in order, each with its presence. -/
def names : Fields → List (String × Presence)
  | nil => []
  | cons name presence _ rest => (name, presence) :: rest.names

/-- The fields that have to be there. -/
def requiredNames (fs : Fields) : List String := (fs.names.filter (·.2 = .required)).map (·.1)

/-- Fields from a list. -/
def ofList : List (String × Presence × Shape) → Fields
  | [] => nil
  | (name, presence, shape) :: r => cons name presence shape (ofList r)

end Fields

namespace Shape

open Draft (textValue)

/-- The fault of a value of the wrong kind. Numbers and strings are read before they are refused. -/
def misfit : Draft → Fault
  | .number none => .malformed
  | .text none => .malformed
  | .broken _ used _ => used
  | _ => .mismatched

/-- The member of an object that stands for a choice holds `null`. To a lenient reader an empty object holds
    nothing either. -/
def readNothing (lenient : Bool) : Draft → Except Fault Unit
  | .null => .ok ()
  | .object [] .closed => if lenient then .ok () else .error .mismatched
  | d => .error (misfit d)

def readName (names : List String) (t : Option String) : Except Fault String := do
  let s ← textValue t
  if s ∈ names then .ok s else .error .mismatched

/-- Reads a choice, written as its name or as an object. Behind the one member of the object only its end
    is in place. -/
def readChoice (lenient : Bool) (names : List String) : Draft → Except Fault Json
  | .text t => (readName names t).map .string
  | .object [] .closed => .error .malformed
  | .object [] (.broken _ used _) => .error used
  | .object ((key, d) :: more) ending => do
    let name ← readName names key
    readNothing lenient d
    match more, ending with
    | [], .closed => return .string name
    | [], .broken false used _ => .error used
    | _, _ => .error .malformed
  | .broken .bare _ _ => .error .malformed
  | .broken _ used _ => .error used
  | _ => .error .malformed

def readWhole (least greatest : Int) : Draft → Except Fault Json
  | .number (some (.whole n)) => if least ≤ n ∧ n ≤ greatest then .ok (.whole n) else .error .mismatched
  | d => .error (misfit d)

/-- Reads a list item by item, and then its ending. -/
def readList (f : Draft → Except Fault α) (items : List Draft) (ending : Ending) : Except Fault (List α) := do
  let xs ← items.mapM f
  Draft.Ending.used ending
  return xs

/-- Reads the given number of items. Further items are refused when the array should close. -/
def readTuple (f : Draft → Except Fault α) : Nat → List Draft → Ending → Except Fault (List α)
  | 0, [], ending => do Draft.Ending.used ending; return []
  | 0, _ :: _, _ => .error .malformed
  | _ + 1, [], ending => do Draft.Ending.used ending; .error .mismatched
  | n + 1, d :: r, ending => do return (← f d) :: (← readTuple f n r ending)

def readMap (f : Draft → Except Fault Json) (members : List (Option String × Draft)) (ending : Ending) :
    Except Fault Json := do
  let entries ← members.mapM fun m => do return (← textValue m.1, ← f m.2)
  Draft.Ending.used ending
  return .ofMembers entries

/-- Reads the members of a record in text order, given how a field's value is read. -/
def readMembers (field : String → Draft → Option (Except Fault Json)) (strict : Bool) :
    List (String × Json) → List (Option String × Draft) → Except Fault (List (String × Json))
  | seen, [] => .ok seen
  | seen, (key, d) :: r => do
    let name ← textValue key
    match field name d with
    | none => if strict then .error .mismatched else do d.skip; readMembers field strict seen r
    | some value =>
      if seen.any (·.1 = name) then .error .mismatched
      else readMembers field strict ((name, ← value) :: seen) r

mutual

def read (lenient : Bool) : Shape → Draft → Except Fault Json
  | any, d => d.value Draft.nestingLimit
  | text, .text t => (textValue t).map .string
  | flag, .bool b => .ok (.bool b)
  | real, .number (some n) => .ok (.number n)
  | whole least greatest, d => readWhole least greatest d
  | choice names, d => readChoice lenient names d
  | nullable _, .null => .ok .null
  | nullable s, d => read lenient s d
  | list s, .array items ending => (readList (fun d => read lenient s d) items ending).map .array
  | map s, .object members ending => readMap (fun d => read lenient s d) members ending
  | tuple n s, .array items ending => (readTuple (fun d => read lenient s d) n items ending).map .array
  | record _ fields, .array items ending => (readFields lenient fields items ending).map .ofMembers
  | record strict fields, .object members ending => do
    let seen ← readMembers (fun name d => readField lenient fields name d) strict [] members
    Draft.Ending.used ending
    if fields.requiredNames.all fun name => seen.any (·.1 = name) then return .ofMembers seen
    else .error .mismatched
  | _, d => .error (misfit d)

/-- Reads the value of the field of the given name, if there is one. -/
def readField (lenient : Bool) : Fields → String → Draft → Option (Except Fault Json)
  | .nil, _, _ => none
  | .cons name _ s rest, key, d => if name = key then some (read lenient s d) else readField lenient rest key d

/-- Reads fields written in order. Optional fields may be missing at the end. -/
def readFields (lenient : Bool) : Fields → List Draft → Ending → Except Fault (List (String × Json))
  | .nil, [], ending => do Draft.Ending.used ending; return []
  | .nil, _ :: _, _ => .error .malformed
  | .cons _ presence _ rest, [], ending => do
    Draft.Ending.used ending
    if presence = .optional then readFields lenient rest [] ending else .error .mismatched
  | .cons name _ s rest, d :: r, ending => do
    return (name, ← read lenient s d) :: (← readFields lenient rest r ending)

end

/-- Reads a shape from a text. -/
def readText (s : Shape) (text : String) : Except Fault Json := (JsonSource.ofText text).read (s.read false)

/-- Takes a JSON value of a shape into normal form. -/
def check (s : Shape) (lenient : Bool) (j : Json) : Except Fault Json :=
  (s.read lenient (.ofJson j)).mapError fun _ => .mismatched

end Shape

/-- A family of records told apart by the name in one more member. -/
structure Variants where
  tag : String
  cases : List (String × Fields)

namespace Variants

/-- The fields of the variant that a member names. -/
def fields? (v : Variants) : Draft → Option (String × Fields)
  | .text (some name) => (v.cases.find? (·.1 = name))
  | _ => none

/-- Reads a variant, written as a record with the tag among its members or as an array that starts with
    the tag. -/
def read (v : Variants) : Draft → Except Fault Json
  | .array (tag :: items) ending =>
    match v.fields? tag with
    | some (name, fields) => do
      let members ← Shape.readFields true fields items ending
      return .ofMembers ((v.tag, .string name) :: members)
    | none => .error .mismatched
  | .object members ending =>
    match members.find? (·.1 = some v.tag) with
    | some (_, tag) =>
      match v.fields? tag with
      | some (name, fields) => do
        match ← Shape.read true (.record false fields) (.object (members.filter (·.1 ≠ some v.tag)) ending) with
        | .object members => return .ofMembers ((v.tag, .string name) :: members)
        | j => return j
      | none => .error .mismatched
    | none => .error .mismatched
  | _ => .error .mismatched

/-- Takes a JSON value of one of the variants into normal form. -/
def check (v : Variants) (j : Json) : Except Fault Json := (v.read (.ofJson j)).mapError fun _ => .mismatched

end Variants

end Workboard
