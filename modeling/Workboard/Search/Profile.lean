import Workboard.Decimal.Layout
import Workboard.Json.Shape
import Workboard.Search.Field

/-! Profiles: how documents are ranked.

A profile is written in JSON. What it leaves out is taken from a base, and it has no other members than
those known. `Profile.ofText` reads one, and `Profile.fault?` says what is wrong with its values. -/

namespace Workboard.Search

/-- How approximate terms are looked for. -/
structure Leniency where
  /-- How much an approximate term counts. -/
  weight : Float32
  /-- Shorter terms have to match as they are. -/
  shortestTerm : Nat
  mostTerms : Nat
  leastSimilarity : Float32

structure Profile where
  name : String
  description : Option String
  /-- The greatest number of results. -/
  limit : Nat
  /-- How much a match in a field counts. -/
  boost : Field → Float32
  /-- How soon further occurrences of a term stop to count. -/
  saturation : Float32
  /-- How much the length of a field counts. -/
  lengthWeight : Float32
  /-- How much the beginning of a term counts. -/
  prefixWeight : Float32
  /-- What is added if the whole query is a document's name. -/
  nameBonus : Float32
  leniency : Leniency

/-- What is wrong with the values of a profile. -/
inductive ValueError where
  | noLimit
  | badWeight (key : String) (value : Float32)
  | badLengthWeight
  | badSimilarity

/-- Why a profile cannot be read. -/
inductive ProfileError where
  | notJson (fault : Fault)
  | noBase (base : String)
  | badValue (fault : ValueError)

/-- The style of numbers in messages: never an exponent. -/
def messageLayout : Layout := ⟨-1000, 1000, false⟩

def weightText (x : Float32) : String :=
  match Reading.ofFloat32 x with
  | .finite negative b => messageLayout.write negative b.shortest
  | .infinite negative => if negative then "-inf" else "inf"
  | .undefined => "NaN"

def ValueError.message : ValueError → String
  | noLimit => "limit must be positive"
  | badWeight key value => s!"{key} must be a non-negative number, got {weightText value}"
  | badLengthWeight => "bm25.b must be within 0..=1"
  | badSimilarity => "fuzzy.min_similarity must be within 0..=1"

/-- What is said of a profile that cannot be read, the general before the particular. -/
def ProfileError.parts (name : String) : ProfileError → List String
  | notJson f => [s!"Profile '{name}' is not valid JSON configuration", f.name]
  | noBase base => [s!"Base profile '{base}' not bundled"]
  | badValue fault => [s!"Profile '{name}': {fault.message}"]

def ProfileError.message (name : String) (e : ProfileError) : String := ": ".intercalate (e.parts name)

namespace Profile

/-- The values that count if nothing else is said. -/
def plain : Profile where
  name := "board"
  description := none
  limit := 100
  boost
    | .name => 5
    | .nodeName => 4
    | .matchedValue => 3
    | .pinName => 2.5
    | .searchText => 2
    | .category => 1.5
    | .dataType => 1.5
    | .description => 1
  saturation := 1.2
  lengthWeight := 0.75
  prefixWeight := 0.5
  nameBonus := 10
  leniency := ⟨0.35, 4, 3, 0.5⟩

/-- The usual profile. -/
def board : Profile :=
  { plain with description := some "Default ranking for board search: identity fields first, free text last" }

instance : Inhabited Profile := ⟨board⟩

/-- The profiles that are known by name. -/
def builtin? (name : String) : Option Profile := if name = "board" ∨ name = "default" then some board else none

/-- The profile with another limit, which is at least one. -/
def withLimit (p : Profile) (limit : Nat) : Profile := { p with limit := max limit 1 }

/-! ### Values -/

/-- The weights that may be any finite number from zero on. -/
def weights (p : Profile) : List (String × Float32) :=
  Field.all.map (fun f => ("boosts." ++ f.label, p.boost f)) ++ [
    ("bm25.k1", p.saturation),
    ("prefix_weight", p.prefixWeight),
    ("exact_name_bonus", p.nameBonus),
    ("fuzzy.weight", p.leniency.weight)]

def isWithinOne (x : Float32) : Bool := 0 ≤ x && x ≤ 1

/-- The first thing that is wrong with the values. -/
def fault? (p : Profile) : Option ValueError :=
  if p.limit = 0 then some .noLimit
  else
    match p.weights.find? fun w => !w.2.isFinite || w.2 < 0 with
    | some (key, value) => some (.badWeight key value)
    | none =>
      if !isWithinOne p.lengthWeight then some .badLengthWeight
      else if !isWithinOne p.leniency.leastSimilarity then some .badSimilarity
      else none

/-! ### Text -/

def weightField (name : String) : String × Presence × Shape := (name, .nullable, .nullable .real)

/-- The shape of a count. -/
def countShape : Shape := .nullable (.whole 0 Numeral.wordMax)

def shape : Shape := .record true (.ofList [
  ("description", .nullable, .nullable .text),
  ("limit", .nullable, countShape),
  ("boosts", .optional, .record true (.ofList (Field.all.map fun f => weightField f.label))),
  ("bm25", .optional, .record true (.ofList [weightField "k1", weightField "b"])),
  weightField "prefix_weight",
  weightField "exact_name_bonus",
  ("fuzzy", .optional, .record true (.ofList [
    weightField "weight",
    ("min_term_len", .nullable, countShape),
    ("max_expansions", .nullable, countShape),
    weightField "min_similarity"]))])

/-- The value at a key, or what counts without it. -/
def given (f : Json → Option α) (j : Json) (key : String) (otherwise : α) : α :=
  ((j.member? key).bind f).getD otherwise

/-- Puts the values of a JSON object in normal form in the place of the profile's own. -/
def overlay (base : Profile) (name : String) (j : Json) : Profile :=
  let part (key : String) : Json := (j.member? key).getD .null
  let weight := given Json.float32?
  { name
    description := ((j.member? "description").bind Json.string?).or base.description
    limit := given Json.nat? j "limit" base.limit
    boost := fun f => weight (part "boosts") f.label (base.boost f)
    saturation := weight (part "bm25") "k1" base.saturation
    lengthWeight := weight (part "bm25") "b" base.lengthWeight
    prefixWeight := weight j "prefix_weight" base.prefixWeight
    nameBonus := weight j "exact_name_bonus" base.nameBonus
    leniency := {
      weight := weight (part "fuzzy") "weight" base.leniency.weight
      shortestTerm := given Json.nat? (part "fuzzy") "min_term_len" base.leniency.shortestTerm
      mostTerms := given Json.nat? (part "fuzzy") "max_expansions" base.leniency.mostTerms
      leastSimilarity := weight (part "fuzzy") "min_similarity" base.leniency.leastSimilarity } }

/-- The profile to start from. -/
def base : Option String → Except ProfileError Profile
  | none => .ok plain
  | some name =>
    match builtin? name with
    | some p => .ok p
    | none => .error (.noBase name)

/-- Reads a profile from JSON text, on top of a base. -/
def ofText (name text : String) (baseName : Option String) : Except ProfileError Profile := do
  let j ← (shape.readText text).mapError .notJson
  let p := (← base baseName).overlay name j
  match p.fault? with
  | some fault => .error (.badValue fault)
  | none => .ok p

def toJson (p : Profile) : Json := .ofMembers [
  ("name", .string p.name),
  ("description", .ofText? p.description),
  ("limit", .nat p.limit),
  ("boosts", .ofMembers (Field.all.map fun f => (f.label, .single (p.boost f)))),
  ("bm25", .ofMembers [("k1", .single p.saturation), ("b", .single p.lengthWeight)]),
  ("prefix_weight", .single p.prefixWeight),
  ("exact_name_bonus", .single p.nameBonus),
  ("fuzzy", .ofMembers [
    ("weight", .single p.leniency.weight),
    ("min_term_len", .nat p.leniency.shortestTerm),
    ("max_expansions", .nat p.leniency.mostTerms),
    ("min_similarity", .single p.leniency.leastSimilarity)])]

end Profile

end Workboard.Search
