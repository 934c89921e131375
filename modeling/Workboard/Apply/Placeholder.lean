import Workboard.Apply.Error
import Workboard.Command.Basic

/-! Placeholders: nodes made from a command alone, with an execution pin on either side and the pins that
the command asks for. A pin's name is also its id. -/

namespace Workboard.Placeholder

/-- The name of the type of every placeholder. -/
def nodeType : String := "placeholder"

/-- A pin without connections whose id is its name. -/
def plainPin (name friendlyName description : String) (d : Direction) (t : DataType) (c : Container) : Pin where
  id := name
  name := name
  friendlyName := friendlyName
  description := description
  direction := d
  dataType := t
  container := c
  defaultValue := none
  connectedTo := ∅
  dependsOn := ∅

/-- The execution pins. -/
def ownPins : List Pin := [
  plainPin "exec_in" "Input" "" .input .execution .single,
  plainPin "exec_out" "Output" "" .output .execution .single]

/-- A value that has to be there. -/
def need (o : Option α) (fault : ValueFault) : Except ApplyError α :=
  match o with
  | some x => .ok x
  | none => .error (.invalidValue fault)

/-- The pin that is asked for, beside the pins that there are. -/
def pin (pins : KeyMap Pin) (r : PinRequest) : Except ApplyError Pin := do
  if Text.isAllBlank r.name then .error (.invalidValue .pinUnnamed)
  else if pins.contains r.name then .error (.invalidValue (.pinRepeated r.name))
  else
    let d ← need (Direction.ofLoose? r.direction) (.pinDirection r.name r.direction)
    let t ← need (DataType.ofLoose? r.dataType) (.pinData r.name r.dataType)
    let c ←
      match r.container with
      | some raw => need (Container.ofLoose? raw) (.pinContainer r.name raw)
      | none => pure .single
    return plainPin r.name r.friendlyName (r.description.getD "") d t c

/-- Adds the pins that are asked for, one after the other. -/
def addPins (pins : KeyMap Pin) : List PinRequest → Except ApplyError (KeyMap Pin)
  | [] => .ok pins
  | r :: rest => do addPins (pins.insert r.name (← pin pins r)) rest

/-- The template of a placeholder. -/
def node (name : String) (requests : List PinRequest) : Except ApplyError Node := do
  let pins ← addPins (.ofList (ownPins.map fun p => (p.id, p))) requests
  return {
    id := ""
    name := nodeType
    friendlyName := name
    category := "Placeholder"
    description := ""
    comment := none
    pins
    place := .origin
    layer := none }

end Workboard.Placeholder
