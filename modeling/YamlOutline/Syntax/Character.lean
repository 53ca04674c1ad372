/-!
The character classes of the YAML grammar, and what counts as the end of an indicator.
-/

namespace YamlOutline.Syntax

def isBreak (c : Char) : Bool :=
  c == '\n' || c == '\r'

def isWhite (c : Char) : Bool :=
  c == ' ' || c == '\t'

/-- A null character ends the stream wherever it stands. -/
def isNull (c : Char) : Bool :=
  c.toNat == 0

/-- Printable characters other than white space and the byte order mark. -/
def isVisible (c : Char) : Bool :=
  let n := c.toNat
  (0x21 ≤ n && n ≤ 0x7E) || n == 0x85 || (0xA0 ≤ n && n ≤ 0xD7FF) ||
    (0xE000 ≤ n && n ≤ 0xFEFE) || (0xFF00 ≤ n && n ≤ 0xFFFD) || 0x10000 ≤ n

/-- What may stand inside quotes. -/
def isQuotable (c : Char) : Bool :=
  c == '\t' || 0x20 ≤ c.toNat

def isFlowIndicator (c : Char) : Bool :=
  c == ',' || c == '[' || c == ']' || c == '\x7b' || c == '\x7d'

/-- Characters that cannot begin a plain scalar, `-`, `?` and `:` with a visible one after them
excepted. -/
def isIndicator (c : Char) : Bool :=
  isFlowIndicator c || c == '-' || c == '?' || c == ':' || c == '#' || c == '&' || c == '*' ||
    c == '!' || c == '|' || c == '>' || c == '\'' || c == '"' || c == '%' || c == '@' ||
    c.toNat == 0x60

/-- What a plain scalar is made of: inside brackets the flow indicators are not part of it. -/
def isPlain (inFlow : Bool) (c : Char) : Bool :=
  isVisible c && !(inFlow && isFlowIndicator c)

/-- The characters of anchor and alias names. -/
def isName (c : Char) : Bool :=
  isPlain true c

def isDigit (c : Char) : Bool :=
  '0' ≤ c && c ≤ '9'

def isHexDigit (c : Char) : Bool :=
  isDigit c || ('a' ≤ c && c ≤ 'f') || ('A' ≤ c && c ≤ 'F')

def isWord (c : Char) : Bool :=
  isDigit c || ('a' ≤ c && c ≤ 'z') || ('A' ≤ c && c ≤ 'Z') || c == '-'

private def uriMarks : List Char :=
  "#;/?:@&=+$,_.!~*'()[]".toList

/-- What a URI is made of, percent escapes excepted. -/
def isUri (c : Char) : Bool :=
  isWord c || uriMarks.contains c

/-- What a tag is made of, percent escapes excepted. -/
def isTag (c : Char) : Bool :=
  isUri c && c != '!' && !isFlowIndicator c

/-- Whether an indicator is complete here: white space, a line break or the end follows. -/
def atGap : List Char → Bool
  | [] => true
  | c :: _ => isNull c || isWhite c || isBreak c

/-- Whether the line is a document marker made of `c`, given that it begins here. -/
def isMarker (c : Char) : List Char → Bool
  | a :: b :: d :: r => a == c && b == c && d == c && atGap r
  | _ => false

/-- `---` or `...`. -/
def atDocumentMarker (cs : List Char) : Bool :=
  isMarker '-' cs || isMarker '.' cs

/-- How many characters the text in a row takes at once if it begins the row here, without a
document marker, as a marker does: up to three dots or dashes and the one character, whatever it is,
that shows them to be no marker. -/
def likeMarker : List Char → Nat
  | c :: r => if c == '-' || c == '.' then ((r.take 2).takeWhile (· == c)).length + 2 else 0
  | [] => 0

end YamlOutline.Syntax
