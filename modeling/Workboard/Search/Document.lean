import Workboard.Board.Forest
import Workboard.Board.Literal
import Workboard.Board.Lookup
import Workboard.Search.Field
import Workboard.Text.Case

/-! What is searched: one document for every node, pin, pin value, comment, layer and variable of a board.

The value of a secret variable is in no document. -/

namespace Workboard

namespace Search

inductive DocumentKind where
  | node
  | layer
  | pin
  | pinValue
  | comment
  | variableEntry
  deriving DecidableEq, Repr

def DocumentKind.label : DocumentKind → String
  | node => "node"
  | layer => "layer"
  | pin => "pin"
  | pinValue => "pin-value"
  | comment => "comment"
  | variableEntry => "variable"

structure Document where
  id : String
  kind : DocumentKind
  /-- The node that it belongs to. -/
  node : Option String := none
  layer : Option String := none
  /-- The names of the layers around it, outermost first. -/
  layerPath : List String := []
  name : String
  description : Option String := none
  /-- The content of a value or comment. -/
  matchedValue : Option String := none
  category : Option String := none
  pinName : Option String := none
  direction : Option Direction := none
  dataType : Option String := none
  /-- The type of a node, or the name of the node that something belongs to. -/
  nodeName : Option String := none
  searchText : String := ""
  deriving DecidableEq, Repr

/-- What several documents of one entity have in common. -/
structure EntityKey where
  kind : DocumentKind
  owner : String
  pinName : Option String
  deriving DecidableEq, Repr

namespace Document

/-- The entity that a document stands for. -/
def entity (d : Document) : EntityKey := ⟨d.kind, d.node.getD d.id, d.pinName⟩

/-- The text of a field. -/
def value? (d : Document) : Field → Option String
  | .name => some d.name
  | .nodeName => d.nodeName
  | .matchedValue => d.matchedValue
  | .pinName => d.pinName
  | .searchText => some d.searchText
  | .category => d.category
  | .dataType => d.dataType
  | .description => d.description

end Document

/-! ### Texts -/

/-- The texts without outer white space, in one line, the empty ones left out. -/
def joined (parts : List String) : String := " ".intercalate ((parts.map Text.trim).filter (· ≠ ""))

/-- A text without outer white space, unless nothing is left. -/
def nonBlank (s : String) : Option String := if Text.trim s = "" then none else some (Text.trim s)

def titleLength : Nat := 60

/-- The first line of a text, cut if it is long. -/
def title (content : String) : String :=
  let line := Text.trimChars (content.toList.takeWhile (· ≠ '\n'))
  if line.length ≤ titleLength then .ofList line else .ofList (line.take titleLength ++ ['…'])

/-- A stored value as people read it. -/
def shown (value : Option (List UInt8)) : Option String := (value.bind Literal.decode?).map Literal.display

end Search

/-! ### Documents of a node -/

namespace Node

open Search

/-- The pins by their ids; of pins with one id those come first that do in the given order. -/
def pinsByIdIn (n : Node) (order : List String) : List Pin := (n.pins.valuesIn order).mergeSort fun p q => p.id ≤ q.id

def document (n : Node) (order : List String) (path : List String) : Document where
  id := n.id
  kind := .node
  node := some n.id
  layer := n.layer
  layerPath := path
  name := n.friendlyName
  description := nonBlank n.description
  category := nonBlank n.category
  nodeName := some n.name
  searchText :=
    let names := (n.pinsByIdIn order).flatMap fun p => [p.name, p.friendlyName]
    joined [n.friendlyName, n.name, n.category, " ".intercalate names]

def commentDocument (n : Node) (path : List String) (comment : String) : Document where
  id := n.id ++ ":comment"
  kind := .comment
  node := some n.id
  layer := n.layer
  layerPath := path
  name := title comment
  matchedValue := some comment
  nodeName := some n.friendlyName
  searchText := joined [comment, n.friendlyName]

def pinDocument (n : Node) (path : List String) (p : Pin) : Document where
  id := s!"{n.id}:{p.id}"
  kind := .pin
  node := some n.id
  layer := n.layer
  layerPath := path
  name := p.friendlyName
  description := nonBlank p.description
  pinName := some p.name
  direction := some p.direction
  dataType := some p.dataType.name
  nodeName := some n.friendlyName
  searchText := joined [p.friendlyName, p.name, n.friendlyName]

def valueDocument (n : Node) (path : List String) (p : Pin) (value : String) : Document :=
  { n.pinDocument path p with
    id := s!"{n.id}:{p.id}:value"
    kind := .pinValue
    matchedValue := some value
    searchText := joined [value, p.friendlyName] }

/-- A pin's document, and one for its default value if there is something to show. -/
def pinDocuments (n : Node) (path : List String) (p : Pin) : List Document :=
  n.pinDocument path p
    :: (((shown p.defaultValue).filter fun v => !Text.isAllBlank v).map (n.valueDocument path p)).toList

/-- The documents of a node: its own, its comment's, and those of its pins but the execution pins. -/
def documents (n : Node) (order : List String) (path : List String) : List Document :=
  n.document order path :: ((n.comment.filter fun c => !Text.isAllBlank c).map (n.commentDocument path)).toList
    ++ ((n.pinsByIdIn order).filter (!·.isExecution)).flatMap (n.pinDocuments path)

end Node

/-! ### Documents of layers, comments and variables -/

namespace Layer

open Search

/-- A layer's document. The names of its nodes are in the given order. -/
def document (l : Layer) (order : List String) (path : List String) : Document where
  id := l.id
  kind := .layer
  layer := some l.id
  layerPath := path
  name := l.name
  description := l.comment.bind nonBlank
  searchText := joined [l.name, l.comment.getD "", " ".intercalate ((l.nodes.valuesIn order).map (·.friendlyName))]

end Layer

namespace Comment

open Search

def document (c : Comment) (path : List String) : Document where
  id := c.id
  kind := .comment
  layer := c.layer
  layerPath := path
  name := title c.content
  matchedValue := some c.content
  searchText := joined [c.content, c.author.getD ""]

end Comment

namespace Variable

open Search

/-- A variable's document. The value of a secret one stays out. -/
def document (v : Variable) : Document where
  id := v.id
  kind := .variableEntry
  name := v.name
  description := v.description.bind nonBlank
  matchedValue := if v.secret then none else (shown v.defaultValue).filter (· ≠ "")
  dataType := some v.dataType.name
  searchText := joined [v.name, v.description.getD "", v.dataType.name]

end Variable

/-! ### Documents of a board -/

namespace Board

open Search

/-- The names of the layers that something is inside of, by its layer. What is asked for again is looked up. -/
def recallPath (b : Board) (known : KeyMap (List String)) : Option String → List String × KeyMap (List String)
  | none => ([], known)
  | some layer =>
    match known.get? layer with
    | some path => (path, known)
    | none => (b.layerPathSoFar layer, known.insert layer (b.layerPathSoFar layer))

/-- What elements give when they are told the names around their layers. -/
def collect {α : Type} (b : Board) (layer : α → Option String) (give : α → List String → List Document) :
    KeyMap (List String) → List α → List Document × KeyMap (List String)
  | known, [] => ([], known)
  | known, a :: r =>
    let (path, known) := b.recallPath known (layer a)
    let (more, known) := collect b layer give known r
    (give a path ++ more, known)

/-- All documents: of nodes, of layers, of comments and of variables, each ascending by id. The orders of the maps decide
    how the nodes of a layer are named one after the other, and what comes first of things with one id. -/
def documents (b : Board) (orders : Orders := {}) : List Document :=
  let (ofNodes, known) :=
    b.collect (·.layer) (fun n => n.documents (orders.pins n.id)) ∅ ((b.nodesIn orders).mergeSort fun m n => m.id ≤ n.id)
  let (ofLayers, known) :=
    b.collect (·.2.parent) (fun e path => [e.2.document (orders.members e.1) path]) known
      ((b.layers.entriesIn orders.layers).mergeSort fun e f => e.2.id ≤ f.2.id)
  let (ofComments, _) :=
    b.collect (·.layer) (fun c path => [c.document path]) known
      ((b.comments.valuesIn orders.comments).mergeSort fun c d => c.id ≤ d.id)
  -- Variables are in no layer.
  ofNodes ++ ofLayers ++ ofComments
    ++ ((b.vars.valuesIn orders.vars).mergeSort fun v w => v.id ≤ w.id).map Variable.document

end Board

end Workboard
