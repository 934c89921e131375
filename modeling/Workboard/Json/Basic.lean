import Workboard.KeyMap

/-! JSON values.

A number is a whole number, a binary64 value or a binary32 value; an object is a list of members in
ascending key order (`Json.ofMembers` builds one), so equal contents are equal values. -/

namespace Workboard

/-- The nearest binary32 number, ties to the even one; infinite where that is out of range. -/
def narrow (x : Float) : Float32 :=
  .ofModel <| .pack <|
    match x.toModel.unpack with
    | .finite sign mantissa exponent _ => .round .binary32 sign mantissa exponent
    | special => special

/-- A JSON number. Only numbers that the program writes are `single`; a reader yields the other two. -/
inductive JsonNumber where
  | whole (n : Int)
  | real (x : Float)
  | single (x : Float32)

namespace JsonNumber

/-- Numbers of one kind are compared by value, so the two zeros of a kind are equal. -/
instance : BEq JsonNumber where
  beq
    | .whole m, .whole n => m == n
    | .real x, .real y => x == y
    | .single x, .single y => x == y
    | _, _ => false

/-- The nearest binary64 value. -/
def toFloat : JsonNumber → Float
  | .whole n => if n < 0 then -(UInt64.ofNat n.natAbs).toFloat else (UInt64.ofNat n.natAbs).toFloat
  | .real x => x
  | .single x => x.toFloat

/-- The nearest binary32 value. A whole number is rounded once, not through binary64. -/
def toFloat32 : JsonNumber → Float32
  | .whole n => if n < 0 then -(UInt64.ofNat n.natAbs).toFloat32 else (UInt64.ofNat n.natAbs).toFloat32
  | .real x => narrow x
  | .single x => x

end JsonNumber

/-- A JSON value. -/
inductive Json where
  | null
  | bool (b : Bool)
  | number (n : JsonNumber)
  | string (s : String)
  | array (items : List Json)
  | object (members : List (String × Json))

namespace Json

instance : Inhabited Json := ⟨.null⟩

mutual

def equal : Json → Json → Bool
  | .null, .null => true
  | .bool a, .bool b => a == b
  | .number a, .number b => a == b
  | .string a, .string b => a == b
  | .array a, .array b => equalItems a b
  | .object a, .object b => equalMembers a b
  | _, _ => false

def equalItems : List Json → List Json → Bool
  | [], [] => true
  | x :: r, y :: s => equal x y && equalItems r s
  | _, _ => false

def equalMembers : List (String × Json) → List (String × Json) → Bool
  | [], [] => true
  | (k, x) :: r, (j, y) :: s => k == j && equal x y && equalMembers r s
  | _, _ => false

end

instance : BEq Json := ⟨equal⟩

/-- The object of a map. -/
def ofMap (m : KeyMap Json) : Json := .object m.entries

/-- The object with the given members; of two at one key the later counts. -/
def ofMembers (l : List (String × Json)) : Json := ofMap (.ofList l)

/-- The value at a key of an object. -/
def member? (name : String) : Json → Option Json
  | .object members => KeyMap.find name members
  | _ => none

def whole (n : Int) : Json := .number (.whole n)

def nat (n : Nat) : Json := whole n

def single (x : Float32) : Json := .number (.single x)

/-- A binary64 number; `null` stands for what is not finite. -/
def real (x : Float) : Json := if x.isFinite then .number (.real x) else .null

/-- The string, or `null`. -/
def ofText? : Option String → Json
  | some s => .string s
  | none => .null

/-- The strings as an array. -/
def ofTexts (l : List String) : Json := .array (l.map .string)

mutual

/-- Every binary32 number as the binary64 number of the same value; `null` stands for what is not
    finite. -/
def widen : Json → Json
  | .number (.single x) => real x.toFloat
  | .array items => .array (widenItems items)
  | .object members => .object (widenMembers members)
  | j => j

def widenItems : List Json → List Json
  | [] => []
  | x :: r => widen x :: widenItems r

def widenMembers : List (String × Json) → List (String × Json)
  | [] => []
  | (k, x) :: r => (k, widen x) :: widenMembers r

end

/-! ### Views of a value -/

def string? : Json → Option String
  | .string s => some s
  | _ => none

def bool? : Json → Option Bool
  | .bool b => some b
  | _ => none

def number? : Json → Option JsonNumber
  | .number n => some n
  | _ => none

def whole? : Json → Option Int
  | .number (.whole n) => some n
  | _ => none

def nat? (j : Json) : Option Nat := j.whole?.bind Int.toNat?

def float? (j : Json) : Option Float := j.number?.map JsonNumber.toFloat

def float32? (j : Json) : Option Float32 := j.number?.map JsonNumber.toFloat32

def list? (f : Json → Option α) : Json → Option (List α)
  | .array items => items.mapM f
  | _ => none

def map? (f : Json → Option α) : Json → Option (KeyMap α)
  | .object members => (members.mapM fun e => (f e.2).map (e.1, ·)).map .ofList
  | _ => none

/-- A value that may be `null`. -/
def maybe? (f : Json → Option α) : Json → Option (Option α)
  | .null => some none
  | j => (f j).map some

/-- A member that has to be there. -/
def field? (name : String) (f : Json → Option α) (j : Json) : Option α := (j.member? name).bind f

/-- A member that may be left out, with the value that then counts. -/
def fieldOr? (name : String) (f : Json → Option α) (absent : α) (j : Json) : Option α :=
  match j.member? name with
  | some x => f x
  | none => some absent

/-- A member that may be left out or `null`. -/
def fieldMaybe? (name : String) (f : Json → Option α) (j : Json) : Option (Option α) :=
  j.fieldOr? name (maybe? f) none

end Json

end Workboard
