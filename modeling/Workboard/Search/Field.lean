/-! The parts of a document that are searched. -/

namespace Workboard.Search

inductive Field where
  | name
  | nodeName
  | matchedValue
  | pinName
  | searchText
  | category
  | dataType
  | description
  deriving DecidableEq, Repr

namespace Field

/-- The order in which fields are searched. -/
def all : List Field := [name, nodeName, matchedValue, pinName, searchText, category, dataType, description]

def label : Field → String
  | name => "name"
  | nodeName => "node_name"
  | matchedValue => "matched_value"
  | pinName => "pin_name"
  | searchText => "search_text"
  | category => "category"
  | dataType => "data_type"
  | description => "description"

theorem mem_all (f : Field) : f ∈ all := by cases f <;> simp [all]

end Field

end Workboard.Search
