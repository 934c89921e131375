import Workboard.Apply.Catalog
import Workboard.Board.Codec

/-! Catalogs in JSON text: a list of node templates, or an object that has the list as `nodes`. -/

namespace Workboard.Catalog

/-- The shape of an object that has the templates in a member. -/
def wrapped : Shape := .record false (.ofList [("nodes", .required, .list Node.shape)])

/-- Reads the templates. The whole value is read before either form is tried. -/
def readTemplates (d : Draft) : Except Fault Json := do
  discard (d.value Draft.nestingLimit)
  match (Shape.list Node.shape).read false d, d with
  | .ok j, _ => .ok j
  | .error _, .object .. =>
    match wrapped.read false d with
    | .ok j => .ok ((j.member? "nodes").getD .null)
    | .error _ => .error .mismatched
  | .error _, _ => .error .mismatched

/-- Reads a catalog. -/
def ofText (text : String) : Except Fault Catalog := do
  (← (JsonSource.ofText text).read readTemplates).entity (Json.list? Node.ofJson?)

end Workboard.Catalog
