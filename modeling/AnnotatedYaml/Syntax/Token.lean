import AnnotatedYaml.Syntax.Fault
import AnnotatedYaml.Style

/-! Tokens of YAML text and the character classes that delimit them. -/

namespace AnnotatedYaml.Syntax

/-- The stretch of text a token or event covers, as two lexer marks. -/
structure Span where
  start : Mark
  stop : Mark
  deriving Repr, BEq, Inhabited

def Span.empty (m : Mark) : Span := ⟨m, m⟩

inductive TokenKind where
  | streamStart
  | streamEnd
  | versionDirective (major minor : Nat)
  | tagDirective (handle target : String)
  | documentStart
  | documentEnd
  | blockSequenceStart
  | blockMappingStart
  | blockEnd
  | flowSequenceStart
  | flowSequenceEnd
  | flowMappingStart
  | flowMappingEnd
  | blockEntry
  | flowEntry
  | key
  | value
  | alias (name : String)
  | anchor (name : String)
  | tag (handle suffix : String)
  | scalar (style : ScalarStyle) (text : String)
  deriving Repr, BEq, Inhabited

structure Token where
  span : Span
  kind : TokenKind
  deriving Repr, Inhabited

def isEnd (c : Char) : Bool := c == '\x00'

def isBreak (c : Char) : Bool := c == '\n' || c == '\r'

def isBreakOrEnd (c : Char) : Bool := isBreak c || isEnd c

def isBlank (c : Char) : Bool := c == ' ' || c == '\t'

/-- A blank, a line break or the end of the text: what may follow an indicator. -/
def isSeparator (c : Char) : Bool := isBlank c || isBreakOrEnd c

def isFlowIndicator (c : Char) : Bool :=
  c == ',' || c == '[' || c == ']' || c == '{' || c == '}'

def isDigit (c : Char) : Bool := '0' ≤ c && c ≤ '9'

def isHexDigit (c : Char) : Bool :=
  isDigit c || ('a' ≤ c && c ≤ 'f') || ('A' ≤ c && c ≤ 'F')

def hexValue (c : Char) : Nat :=
  if isDigit c then c.toNat - '0'.toNat
  else if 'a' ≤ c && c ≤ 'f' then c.toNat - 'a'.toNat + 10
  else c.toNat - 'A'.toNat + 10

def isWordChar (c : Char) : Bool :=
  isDigit c || ('a' ≤ c && c ≤ 'z') || ('A' ≤ c && c ≤ 'Z') || c == '_' || c == '-'

/-- Characters allowed in a URI, as tag prefixes and verbatim tags use them. -/
def isUriChar (c : Char) : Bool :=
  (isWordChar c && c != '_') || "#;/?:@&=+$,_.!~*'()[]%".contains c

/-- Characters of a tag suffix: URI characters less the flow indicators and the bang. -/
def isTagChar (c : Char) : Bool := isUriChar c && !isFlowIndicator c && c != '!'

def isAnchorChar (c : Char) : Bool :=
  !isSeparator c && !isFlowIndicator c && c != '\uFEFF'

end AnnotatedYaml.Syntax
