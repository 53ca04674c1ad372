import YamlOutline.CommandLine.Arguments
import YamlOutline.Files.Find
import YamlOutline.Outline.Json
import YamlOutline.Session.Basic
import YamlOutline.Settings

/-!
One run of the program over a disk: what it prints, or the session that it begins.
-/

namespace YamlOutline.CommandLine

/-- What a run that needs no user leaves behind. -/
structure Report where
  code : Nat := 0
  output : String := ""
  errors : String := ""
  deriving DecidableEq, Repr

inductive Outcome where
  | report (report : Report)
  /-- The user takes over. -/
  | interactive (session : Session) (settings : Settings)

/-- Why a run stops before there is an outline. -/
inductive Fault where
  | file (failure : Files.Failure)
  | search (notFound : Files.NotFound)
  deriving DecidableEq, Repr

private def osError (code : Nat) (kind message : String) : String :=
  "Os \x7b code: " ++ toString code ++ ", kind: " ++ kind ++ ", message: " ++
    Text.escaped message ++ " \x7d"

private def plainError (kind message : String) : String :=
  "Error \x7b kind: " ++ kind ++ ", message: " ++ Text.escaped message ++ " \x7d"

/-- The account of a fault with its kind. -/
def Fault.account : Fault → String
  | .file .missing => osError 2 "NotFound" "No such file or directory"
  | .file .notFolder => osError 20 "NotADirectory" "Not a directory"
  | .file .isFolder => osError 21 "IsADirectory" "Is a directory"
  | .file .longName => osError 36 "InvalidFilename" "File name too long"
  | .file .notText => plainError "InvalidData" Files.Failure.notText.message
  | .file .badPath => plainError "InvalidInput" Files.Failure.badPath.message
  | .search e => "Custom \x7b kind: NotFound, error: " ++ Text.escaped e.message ++ " \x7d"

def Fault.report (f : Fault) : Report :=
  { code := 1, errors := "Error: " ++ f.account ++ "\n" }

/-- An editor with one document, which has the focus. Its state are the errors that were shown. -/
def console (d : Document) : Editor (List String) where
  active errors := (some d, errors)
  open? uri errors := (if uri == d.uri then some d else none, errors)
  showError message errors := errors ++ [d.uri ++ ": " ++ message ++ "\n"]
  outlineChanged errors := errors
  reveal _ _ errors := errors
  note _ errors := errors

/-- The outline of a document, and the errors on the way. -/
def outlineOf (tracker : Tracker) (d : Document) : List Outline.Item × List String :=
  let (tracker, errors) := tracker.activate (console d) []
  (tracker.roots, errors)

/-- Prints the outlines of documents. In text, headers tell several outlines apart; one alone can be
read as a summary. -/
def printed (asJson : Bool) (tracker : Tracker) (documents : List Document) : Report :=
  let outlines := documents.map fun d => (d.uri, outlineOf tracker d)
  let errors := String.join (outlines.flatMap fun (_, _, errors) => errors)
  if asJson then
    let json := Outline.Json.pretty (outlines.map fun (uri, roots, _) => (uri, roots))
    { output := json ++ "\n", errors }
  else
    let header (uri : String) := if 1 < documents.length then "# " ++ uri ++ "\n" else ""
    let texts := outlines.map fun (uri, roots, _) => header uri ++ Outline.render roots
    { output := String.join texts, errors }

/-- Makes the log file, which is empty at first. -/
private def prepareLog (disk : Files.Disk) : Option String → Except Fault Files.Disk
  | none => .ok disk
  | some path => (disk.write path "").mapError .file

private def readTracker (disk : Files.Disk) : Option String → Except Fault Tracker
  | none => .ok {}
  | some path => do return Tracker.withSummary (← (disk.read path).mapError .file)

private def outcome (a : Arguments) (disk : Files.Disk) : Except Fault Outcome := do
  let disk ← prepareLog disk a.logFile
  let chosen := Settings.load disk Settings.fileName
  let settings :=
    if a.extensions.isEmpty then chosen else { chosen with extensions := a.extensions }
  let tracker ← readTracker disk a.summary
  let paths ← (Files.find disk settings.extensions a.paths).mapError .search
  let (documents, _) := Files.load disk settings.extensions paths
  if documents.isEmpty then return .report { errors := "No matching files found\n" }
  else if a.print || a.json then return .report (printed a.json tracker documents)
  else
    let workspace := Workspace.ofDocuments documents settings.extensions
    return .interactive (Session.new disk tracker workspace).start settings

/-- Runs the program with arguments over a disk. -/
def run (arguments : List String) (disk : Files.Disk) : Outcome :=
  match Arguments.read arguments with
  | .error fault => .report { code := 2, errors := "error: " ++ fault.message ++ "\n\n" ++ usage }
  | .ok .help => .report { output := usage }
  | .ok (.outlines a) =>
    match outcome a disk with
    | .ok outcome => outcome
    | .error fault => .report fault.report

end YamlOutline.CommandLine
