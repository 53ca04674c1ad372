import YamlOutline.Syntax.Query

/-!
What can go wrong, by cause, and the text that a user reads for each cause.
-/

namespace YamlOutline

/-- Why a text is not well-formed. -/
inductive ParseCause where
  | missing (name : String)
  /-- The first line of what could not be understood. -/
  | unexpected (snippet : String)
  | endOfInput
  /-- An account that was made elsewhere. -/
  | other (message : String)
  deriving DecidableEq, Repr

/-- A malformed text: the cause and its place, line and column counted from 1. The column counts
bytes. -/
structure ParseError where
  cause : ParseCause
  line : Nat
  column : Nat
  deriving DecidableEq, Repr

def ParseCause.message : ParseCause → String
  | .missing name => "missing `" ++ name ++ "`"
  | .unexpected snippet => "unexpected `" ++ snippet ++ "`"
  | .endOfInput => "unexpected end of input"
  | .other message => message

def ParseError.message (e : ParseError) : String :=
  "Failed to parse YAML: " ++ e.cause.message ++ " (line " ++ toString e.line ++ ", column " ++
    toString e.column ++ ")"

def Syntax.QueryError.message : Syntax.QueryError → String
  | .unknownKind name line column =>
    "Query error at " ++ toString line ++ ":" ++ toString column ++ ". Invalid node type " ++ name

/-- What can go wrong between a file and its outline. -/
inductive Error where
  | parse (error : ParseError)
  | query (error : Syntax.QueryError)
  | file (message : String)
  deriving DecidableEq, Repr

def Error.message : Error → String
  | .parse e => e.message
  | .query e => "invalid document query: " ++ e.message
  | .file message => message

/-- Whether the text of a document is at fault, and not how it was read. -/
def Error.isParseFailure : Error → Bool
  | .parse _ => true
  | _ => false

end YamlOutline
