/-!
The arguments of the program. Options may stand before, between and behind the paths; behind two
dashes alone everything is a path.
-/

namespace YamlOutline.CommandLine

inductive Switch where
  | extension | summary | print | json | logFile | help
  deriving DecidableEq, Repr

namespace Switch

def takesValue : Switch → Bool
  | extension | summary | logFile => true
  | print | json | help => false

def ofLong? (name : String) : Option Switch :=
  match name with
  | "ext" => some extension
  | "summary" => some summary
  | "print" => some print
  | "json" => some json
  | "log-file" => some logFile
  | "help" => some help
  | _ => none

def name : Switch → String
  | extension => "--ext"
  | summary => "--summary"
  | print => "--print"
  | json => "--json"
  | logFile => "--log-file"
  | help => "--help"

end Switch

/-- What is wrong with the arguments. -/
inductive UsageFault where
  | unknown (argument : String)
  | missingValue (switch : Switch)
  | needlessValue (switch : Switch)
  /-- A path without characters. -/
  | emptyPath
  | repeated (switch : Switch)
  /-- Outlines cannot be printed in two ways at once. -/
  | conflict
  deriving DecidableEq, Repr

def UsageFault.message : UsageFault → String
  | unknown argument => "unexpected argument '" ++ argument ++ "'"
  | missingValue switch => "a value is required for '" ++ switch.name ++ "'"
  | needlessValue switch => "no value is expected for '" ++ switch.name ++ "'"
  | emptyPath => "a path must not be empty"
  | repeated switch => "'" ++ switch.name ++ "' cannot be used twice"
  | conflict => "'--print' cannot be used with '--json'"

structure Arguments where
  paths : List String := []
  /-- Extensions that take the place of the chosen ones. -/
  extensions : List String := []
  summary : Option String := none
  print : Bool := false
  json : Bool := false
  logFile : Option String := none
  deriving DecidableEq, Repr

/-- One argument by its form. -/
private inductive Word where
  | path (path : String)
  | switch (switch : Switch) (value : Option String)
  | unknown

private def isOption (argument : String) : Bool :=
  argument.toList.head? = some '-' && argument.length ≠ 1

private def classify (argument : String) : Word :=
  match argument.toList with
  | '-' :: '-' :: cs =>
    let name := cs.takeWhile (· != '=')
    let value := match cs.drop name.length with
      | [] => none
      | _ :: value => some (String.ofList value)
    match Switch.ofLong? (.ofList name) with
    | some switch => .switch switch value
    | none => .unknown
  | ['-', 'e'] => .switch .extension none
  | '-' :: 'e' :: '=' :: value => .switch .extension (some (.ofList value))
  | '-' :: 'e' :: value => .switch .extension (some (.ofList value))
  | '-' :: 'h' :: _ => .switch .help none
  | '-' :: _ :: _ => .unknown
  | _ => .path argument

namespace Arguments

private def addPath (a : Arguments) (path : String) : Except UsageFault Arguments :=
  if path.isEmpty then .error .emptyPath else .ok { a with paths := a.paths ++ [path] }

/-- Records an option with its value. Extensions add up, all else may stand once. -/
private def record (a : Arguments) (switch : Switch) (value : String) :
    Except UsageFault Arguments :=
  match switch with
  | .extension => .ok { a with extensions := a.extensions ++ [value] }
  | .summary =>
    if a.summary.isSome then .error (.repeated switch)
    else if value.isEmpty then .error .emptyPath
    else .ok { a with summary := some value }
  | .logFile =>
    if a.logFile.isSome then .error (.repeated switch)
    else if value.isEmpty then .error .emptyPath
    else .ok { a with logFile := some value }
  | .print => if a.print then .error (.repeated switch) else .ok { a with print := true }
  | .json => if a.json then .error (.repeated switch) else .ok { a with json := true }
  | .help => .ok a

/-- What is asked for: help, or outlines. -/
inductive Request where
  | help
  | outlines (arguments : Arguments)
  deriving DecidableEq, Repr

private def finish (a : Arguments) : Except UsageFault Request :=
  if a.print && a.json then .error .conflict else .ok (.outlines a)

private def readFrom (a : Arguments) : List String → Except UsageFault Request
  | [] => finish a
  | "--" :: rest => rest.foldlM addPath a >>= finish
  | argument :: rest =>
    match classify argument with
    | .path path => do readFrom (← a.addPath path) rest
    | .unknown => .error (.unknown argument)
    | .switch .help value => if value.isSome then .error (.needlessValue .help) else .ok .help
    | .switch switch value =>
      match switch.takesValue, value with
      | true, some value => do readFrom (← a.record switch value) rest
      | true, none =>
        match rest with
        | [] => .error (.missingValue switch)
        | value :: rest =>
          if isOption value then .error (.missingValue switch)
          else do readFrom (← a.record switch value) rest
      | false, some _ => .error (.needlessValue switch)
      | false, none => do readFrom (← a.record switch "") rest

/-- Reads the arguments. The value of an option may follow it or stand behind an equals sign. -/
def read (arguments : List String) : Except UsageFault Request :=
  readFrom {} arguments

end Arguments

/-- How the program is used. -/
def usage : String :=
  "Usage: yamltree [OPTIONS] [PATH]...\n\n" ++
  "  -e, --ext <EXT>        File extensions to treat as YAML\n" ++
  "      --summary <FILE>   Align the labels of an indented summary file onto each document\n" ++
  "      --print            Print each outline as an indented summary\n" ++
  "      --json             Print each outline as JSON\n" ++
  "      --log-file <FILE>  Write log output to this file\n" ++
  "  -h, --help             Print help\n"

end YamlOutline.CommandLine
