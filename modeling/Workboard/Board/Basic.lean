import Workboard.KeyMap
import Workboard.Json.Basic
import Workboard.Text.Blank

/-! The board document of a workflow editor.

A board holds nodes with typed pins, and layers, variables and comments. A node names the layer that owns
it, and the layer keeps a copy of the node. Connections are kept at both ends: an output lists the pins it
feeds, an input the pins it reads. -/

namespace Workboard

/-- A place on the canvas. -/
structure Place where
  x : Float32
  y : Float32
  z : Float32

namespace Place

def origin : Place := ⟨0, 0, 0⟩

/-- Coordinates are compared as numbers: the two zeros are equal, and what is not a number differs from
    itself. -/
instance : BEq Place := ⟨fun p q => p.x == q.x && p.y == q.y && p.z == q.z⟩

end Place

/-- The side of a node that a pin is on. -/
inductive Direction where
  | input
  | output
  deriving DecidableEq, Repr

/-- The type of the data that a pin or variable carries. Execution pins carry control. -/
inductive DataType where
  | execution
  | string
  | integer
  | float
  | boolean
  | date
  | path
  | generic
  | struct
  | byte
  deriving DecidableEq, Repr

/-- How many values there are, and how they are kept. -/
inductive Container where
  | single
  | array
  | map
  | set
  deriving DecidableEq, Repr

namespace Direction

def all : List Direction := [input, output]

def name : Direction → String
  | input => "Input"
  | output => "Output"

/-- The direction of a written name. -/
def ofName? (s : String) : Option Direction := all.find? (·.name = s)

/-- The direction that a command writer means: case and outer white space do not count. -/
def ofLoose? (s : String) : Option Direction :=
  match Text.asciiLower (Text.trim s) with
  | "input" | "in" => some input
  | "output" | "out" => some output
  | _ => none

end Direction

namespace DataType

def all : List DataType := [execution, string, integer, float, boolean, date, path, generic, struct, byte]

def name : DataType → String
  | execution => "Execution"
  | string => "String"
  | integer => "Integer"
  | float => "Float"
  | boolean => "Boolean"
  | date => "Date"
  | path => "PathBuf"
  | generic => "Generic"
  | struct => "Struct"
  | byte => "Byte"

def ofName? (s : String) : Option DataType := all.find? (·.name = s)

/-- The data type that a command writer means by a name. -/
def ofLoose? (s : String) : Option DataType :=
  match Text.asciiLower (Text.trim s) with
  | "execution" | "exec" => some execution
  | "string" | "str" | "text" => some string
  | "integer" | "int" | "i64" => some integer
  | "float" | "number" | "f64" => some float
  | "boolean" | "bool" => some boolean
  | "date" | "datetime" => some date
  | "pathbuf" | "path" => some path
  | "generic" | "any" => some generic
  | "struct" | "object" | "json" => some struct
  | "byte" | "bytes" => some byte
  | _ => none

end DataType

namespace Container

def all : List Container := [single, array, map, set]

def name : Container → String
  | single => "Normal"
  | array => "Array"
  | map => "HashMap"
  | set => "HashSet"

def ofName? (s : String) : Option Container := all.find? (·.name = s)

/-- The container that a command writer means by a name. -/
def ofLoose? (s : String) : Option Container :=
  match Text.asciiLower (Text.trim s) with
  | "normal" | "" => some single
  | "array" | "list" | "vec" => some array
  | "hashmap" | "map" => some map
  | "hashset" | "set" => some set
  | _ => none

end Container

/-- A typed point of connection, of a node or of a layer's boundary. -/
structure Pin where
  id : String
  name : String
  friendlyName : String
  description : String
  direction : Direction
  dataType : DataType
  container : Container
  /-- The default value as JSON text in UTF-8. -/
  defaultValue : Option (List UInt8)
  /-- The pins that an output feeds. -/
  connectedTo : KeySet
  /-- The pins that an input reads. -/
  dependsOn : KeySet
  deriving BEq

def Pin.isExecution (p : Pin) : Bool := p.dataType = .execution

/-- A step of the workflow. Its name is the name of its type. -/
structure Node where
  id : String
  name : String
  friendlyName : String
  category : String
  description : String
  comment : Option String
  pins : KeyMap Pin
  place : Place
  /-- The layer that owns the node; none on the root canvas. -/
  layer : Option String
  deriving BEq

/-- The pins on one side, by id. -/
def Node.pinsOf (n : Node) (d : Direction) : List Pin := n.pins.values.filter (·.direction = d)

/-- A group of nodes, perhaps inside another layer. -/
structure Layer where
  id : String
  name : String
  comment : Option String
  parent : Option String
  /-- Copies of the nodes that the layer owns. -/
  nodes : KeyMap Node
  /-- The pins on the layer's boundary. -/
  pins : KeyMap Pin
  place : Place
  color : Option String
  deriving BEq

structure Variable where
  id : String
  name : String
  dataType : DataType
  container : Container
  description : Option String
  defaultValue : Option (List UInt8)
  secret : Bool
  exposed : Bool
  editable : Bool
  deriving BEq

structure Comment where
  id : String
  content : String
  color : Option String
  place : Place
  width : Option Float32
  height : Option Float32
  depth : Option Int32
  author : Option String
  /-- Milliseconds since the epoch. -/
  timestamp : UInt64
  layer : Option String
  deriving BEq

/-- A document version; the last part counts the changes. -/
structure Version where
  major : UInt32
  minor : UInt32
  patch : UInt32
  deriving DecidableEq

structure Board where
  id : String
  name : String
  description : String
  nodes : KeyMap Node
  vars : KeyMap Variable
  comments : KeyMap Comment
  layers : KeyMap Layer
  version : Version
  deriving BEq

namespace Board

/-- A board with nothing on it. -/
def blank (id name : String) : Board := ⟨id, name, "", ∅, ∅, ∅, ∅, ⟨0, 0, 0⟩⟩

instance : Inhabited Board := ⟨blank "" ""⟩

end Board

end Workboard
