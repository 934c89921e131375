import Workboard.Text.Digits

/-! The command line: which command is asked for, and with what.

Options are read from left to right, each at most once; `--` ends them. A value may be joined to its option
by `=`, and the short form of an option may be joined to others and to its value. -/

namespace Workboard.Cli

inductive OptionKind where
  | flag
  | path
  | count
  | help
  | version
  deriving DecidableEq, Repr

/-- Whether a value will do for an option of a kind. -/
def OptionKind.admits (k : OptionKind) (value : String) : Bool :=
  match k with
  | path => value ≠ ""
  | count => (Text.word64? value.toList).isSome
  | _ => true

def OptionKind.takesValue (k : OptionKind) : Bool := k = .path || k = .count

structure OptionSpec where
  name : String
  short : Option Char
  kind : OptionKind

/-- Why a command line is no request. -/
inductive UsageError where
  | noCommand
  | unknownCommand (name : String)
  | unknownArgument (argument : String)
  | noValue (option : String)
  | badValue (option value : String)
  | repeated (option : String)
  | missing (argument : String)
  deriving DecidableEq, Repr

def UsageError.message : UsageError → String
  | noCommand => "a command is required: search, apply, layers or schema"
  | unknownCommand name => s!"unrecognized command '{name}'"
  | unknownArgument argument => s!"unexpected argument '{argument}'"
  | noValue option => s!"a value is required for '--{option}'"
  | badValue option value => s!"invalid value '{value}' for '--{option}'"
  | repeated option => s!"'--{option}' cannot be used more than once"
  | missing argument => s!"'{argument}' is required"

/-- Why there is nothing to run. -/
inductive Stop where
  | help
  | version
  | misuse (e : UsageError)
  deriving DecidableEq, Repr

/-- What a command takes: options, and so many other arguments. -/
structure Level where
  options : List OptionSpec
  operands : Nat

/-- What was found so far. -/
structure Scan where
  /-- The options with their values; flags have an empty one. -/
  given : List (String × String)
  operands : List String
  /-- The option whose value comes next. -/
  pending : Option OptionSpec
  /-- Whether the options have ended. -/
  closed : Bool

namespace Scan

def start : Scan := ⟨[], [], none, false⟩

/-- Takes an option in. -/
def record (s : Scan) (o : OptionSpec) (value : String) : Except Stop Scan :=
  if o.kind = .help then .error .help
  else if o.kind = .version then .error .version
  else if s.given.any (·.1 = o.name) then .error (.misuse (.repeated o.name))
  else if !o.kind.admits value then .error (.misuse (.badValue o.name value))
  else .ok { s with given := (o.name, value) :: s.given, pending := none }

/-- Takes an option in, given the value that is joined to it. -/
def recordJoined (s : Scan) (o : OptionSpec) : Option String → Except Stop Scan
  | some value => if o.kind.takesValue then s.record o value else .error (.misuse (.badValue o.name value))
  | none => if o.kind.takesValue then .ok { s with pending := some o } else s.record o ""

/-- Takes in what stands behind two dashes. -/
def takeLong (l : Level) (s : Scan) (body : List Char) : Except Stop Scan :=
  let name := String.ofList (body.takeWhile (· ≠ '='))
  let value := (body.dropWhile (· ≠ '=')).tail?.map String.ofList
  match l.options.find? (·.name = name) with
  | some o => s.recordJoined o value
  | none => .error (.misuse (.unknownArgument ("--" ++ name)))

/-- Takes in what stands behind one dash. -/
def takeShort (l : Level) (s : Scan) : List Char → Except Stop Scan
  | [] => .ok s
  | c :: r =>
    match l.options.find? (·.short = some c) with
    | none => .error (.misuse (.unknownArgument (.ofList ['-', c])))
    | some o =>
      if o.kind.takesValue then
        match r with
        | [] => s.recordJoined o none
        | '=' :: value => s.record o (.ofList value)
        | value => s.record o (.ofList value)
      else do takeShort l (← s.record o "") r

/-- Takes in an argument that is no option. -/
def takeOperand (l : Level) (s : Scan) (argument : String) : Except Stop Scan :=
  if s.operands.length < l.operands then .ok { s with operands := s.operands ++ [argument] }
  else .error (.misuse (.unknownArgument argument))

/-- Whether an argument looks like an option. A single dash does not. -/
def isOption (argument : String) : Bool := argument.toList.head? = some '-' && argument ≠ "-"

def take (l : Level) (s : Scan) (argument : String) : Except Stop Scan :=
  match s.pending with
  | some o => if isOption argument then .error (.misuse (.noValue o.name)) else s.record o argument
  | none =>
    if s.closed then s.takeOperand l argument
    else if argument = "--" then .ok { s with closed := true }
    else
      match argument.toList with
      | '-' :: '-' :: body => s.takeLong l body
      | '-' :: c :: r => s.takeShort l (c :: r)
      | _ => s.takeOperand l argument

/-- Takes in all arguments of a command. -/
def ofArguments (l : Level) (arguments : List String) : Except Stop Scan := do
  let s ← arguments.foldlM (take l) start
  match s.pending with
  | some o => .error (.misuse (.noValue o.name))
  | none => .ok s

def has (s : Scan) (option : String) : Bool := s.given.any (·.1 = option)

def value? (s : Scan) (option : String) : Option String := (s.given.find? (·.1 = option)).map (·.2)

/-- The value of an option that has to be given. -/
def need (s : Scan) (option : String) : Except Stop String :=
  match s.value? option with
  | some v => .ok v
  | none => .error (.misuse (.missing ("--" ++ option)))

end Scan

/-! ### Commands -/

structure SearchRequest where
  board : String
  profile : Option String
  limit : Option Nat
  json : Bool
  query : String
  deriving DecidableEq, Repr

structure ApplyRequest where
  board : String
  catalog : String
  commands : String
  out : Option String
  json : Bool
  /-- Whether to wait between commands where the facility cannot tell. -/
  settle : Bool
  deriving DecidableEq, Repr

inductive Request where
  | search (r : SearchRequest)
  | apply (r : ApplyRequest)
  | layers (board : String)
  | schema
  deriving DecidableEq, Repr

namespace Request

/-- The options that every command takes. They only concern what is logged. -/
def commonOptions : List OptionSpec :=
  [⟨"verbose", some 'v', .flag⟩, ⟨"quiet", none, .flag⟩, ⟨"help", some 'h', .help⟩]

def topLevel : Level := ⟨⟨"version", some 'V', .version⟩ :: commonOptions, 0⟩

def levelOf (options : List OptionSpec) (operands : Nat) : Level := ⟨options ++ commonOptions, operands⟩

def pathOption (name : String) : OptionSpec := ⟨name, none, .path⟩

def jsonOption : OptionSpec := ⟨"json", none, .flag⟩

def ofSearch (arguments : List String) : Except Stop Request := do
  let level := levelOf [pathOption "board", pathOption "profile", ⟨"limit", some 'l', .count⟩, jsonOption] 1
  let s ← Scan.ofArguments level arguments
  let board ← s.need "board"
  match s.operands with
  | query :: _ =>
    let limit := (s.value? "limit").bind fun v => Text.word64? v.toList
    return .search ⟨board, s.value? "profile", limit, s.has "json", query⟩
  | [] => .error (.misuse (.missing "query"))

def ofApply (arguments : List String) : Except Stop Request := do
  let level := levelOf
    [pathOption "board", pathOption "catalog", pathOption "commands", pathOption "out", jsonOption,
      ⟨"no-settle", none, .flag⟩] 0
  let s ← Scan.ofArguments level arguments
  return .apply ⟨← s.need "board", ← s.need "catalog", ← s.need "commands", s.value? "out", s.has "json",
    !s.has "no-settle"⟩

def ofLayers (arguments : List String) : Except Stop Request := do
  return .layers (← (← Scan.ofArguments (levelOf [pathOption "board"] 0) arguments).need "board")

def ofSchema (arguments : List String) : Except Stop Request := do
  discard (Scan.ofArguments (levelOf [] 0) arguments)
  return .schema

/-- The commands, by name. -/
def commandNames : List String := ["search", "apply", "layers", "schema", "help"]

/-- Explains the program, or one of its commands. -/
def ofHelp : List String → Except Stop Request
  | [] => .error .help
  | name :: more =>
    if name ∉ commandNames then .error (.misuse (.unknownCommand name))
    else .error (match more with | [] => .help | other :: _ => .misuse (.unknownCommand other))

def ofCommand (name : String) (arguments : List String) : Except Stop Request :=
  match name with
  | "search" => ofSearch arguments
  | "apply" => ofApply arguments
  | "layers" => ofLayers arguments
  | "schema" => ofSchema arguments
  | "help" => ofHelp arguments
  | _ => .error (.misuse (.unknownCommand name))

/-- Reads the options before the command, and then the command's own arguments. -/
def ofArgumentsFrom (s : Scan) : List String → Except Stop Request
  | [] => .error (.misuse .noCommand)
  | a :: r =>
    if s.closed || Scan.isOption a then do ofArgumentsFrom (← s.take topLevel a) r
    else ofCommand a r

/-- The request of a command line. -/
def ofArguments (arguments : List String) : Except Stop Request := ofArgumentsFrom .start arguments

/-- Whether the answer, and a failure too, is to be JSON. -/
def json : Request → Bool
  | search r => r.json
  | apply r => r.json
  | layers _ => false
  | schema => false

end Request

end Workboard.Cli
