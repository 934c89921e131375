import Workboard.Text.Split

/-! Parts of file paths as they are written, with `/` between the names. -/

namespace Workboard.Cli.Path

/-- Drops marks that add nothing to the end of a path: a slash, and a dot behind a slash. The path is given
    last character first. -/
def dropIdle : List Char → List Char
  | '/' :: r => dropIdle r
  | '.' :: '/' :: r => dropIdle r
  | l => l

/-- The names in a path, with empty ones where slashes meet. -/
def names (path : String) : List String := (Text.splitAt (· = '/') path.toList).map .ofList

/-- The last name of a path; none if the path ends in itself or in what is above. -/
def fileName? (path : String) : Option String :=
  let name := String.ofList ((dropIdle path.toList.reverse).takeWhile (· ≠ '/')).reverse
  if name = "" ∨ name = "." ∨ name = ".." then none else some name

/-- The last name without its extension. A dot at the beginning starts no extension. -/
def stem? (path : String) : Option String := do
  let name ← fileName? path
  let body := (name.toList.reverse.dropWhile (· ≠ '.')).drop 1
  return if body.isEmpty then name else .ofList body.reverse

/-- The path without its last name; none if there is no name. -/
def parent? (path : String) : Option String :=
  match dropIdle path.toList.reverse with
  | [] => none
  | l => some (.ofList (dropIdle (l.dropWhile (· ≠ '/'))).reverse)

/-- A path and the paths above it. Every step drops a name. -/
def upward : Nat → String → List String
  | 0, path => [path]
  | fuel + 1, path =>
    match parent? path with
    | some above => path :: upward fuel above
    | none => [path]

end Workboard.Cli.Path
