import AnnotatedYaml.Text.Escaped
import AnnotatedYaml.Text.Position

/-! Why an operation of the library fails, and the sentence shown for each cause. -/

namespace AnnotatedYaml

/-- What a node was found to be where another kind was expected. -/
inductive NodeRole where
  | document
  | content
  deriving Repr, BEq, DecidableEq, Inhabited

def NodeRole.name : NodeRole → String
  | .document => "document"
  | .content => "scalar, alias, mapping or sequence"

/-- Where the library stops with a panic rather than an error: an index past the end of an
arena or a vector, a counter taken below zero, or a byte range of a text that is out of order
or cuts a character. -/
inductive Panic where
  | indexOutOfBounds (index length : Nat)
  | subtractOverflow
  | sliceOutOfBounds (lo hi : Nat)
  deriving Repr, DecidableEq, Inhabited

def Panic.message : Panic → String
  | .indexOutOfBounds index length =>
    "index out of bounds: the len is " ++ toString length ++ " but the index is " ++ toString index
  | .subtractOverflow => "attempt to subtract with overflow"
  | .sliceOutOfBounds lo hi =>
    "byte range " ++ toString lo ++ ".." ++ toString hi ++ " is not a slice of the text"

inductive Error where
  /-- The text is not YAML; `offset` is the byte where reading stopped. -/
  | parse (info : String) (offset : Nat)
  | unreadable (path : String)
  | positionOutOfBounds (node : Nat) (position : Position) (lines : Nat)
  | invertedSpan (node : Nat) (start stop : Position)
  | oddMapping (len : Nat)
  | danglingChild (child len : Nat)
  | unexpectedNode (node : Nat) (found : String) (expected : NodeRole)
  | malformedComment (node : Nat) (text : String)
  | missingAnchor (id : Nat)
  | invalidIndent (width : Nat)
  | panic (p : Panic)
  deriving Repr, DecidableEq, Inhabited

namespace Error

def nodeName (id : Nat) : String := "#" ++ toString id

def message : Error → String
  | .parse info _ => "invalid YAML: " ++ info
  | .unreadable path => "failed to read " ++ path
  | .positionOutOfBounds node p lines =>
    "node " ++ nodeName node ++ " has position " ++ p.display ++ " outside the source text (" ++
      toString lines ++ " lines)"
  | .invertedSpan node start stop =>
    "node " ++ nodeName node ++ " ends at " ++ stop.display ++ " before it starts at " ++
      start.display
  | .oddMapping len => "mapping has an odd number of children (" ++ toString len ++ ")"
  | .danglingChild child len =>
    "child " ++ nodeName child ++ " does not exist in a tree of " ++ toString len ++ " nodes"
  | .unexpectedNode node found expected =>
    "unexpected " ++ found ++ " node " ++ nodeName node ++ " where " ++ expected.name ++
      " was expected"
  | .malformedComment node text =>
    "comment " ++ Text.quoted text ++ " on node " ++ nodeName node ++ " is not a YAML comment"
  | .missingAnchor id => "anchor #" ++ toString id ++ " has no `&name` in the source"
  | .invalidIndent width => "indent width " ++ toString width ++ " is out of range"
  | .panic p => "panicked: " ++ p.message

/-- The kind of failure, as the driver names it. -/
def kind : Error → String
  | .parse .. => "Parse"
  | .unreadable .. => "Io"
  | .positionOutOfBounds .. => "PositionOutOfBounds"
  | .invertedSpan .. => "InvertedSpan"
  | .oddMapping .. => "OddMapping"
  | .danglingChild .. => "DanglingChild"
  | .unexpectedNode .. => "UnexpectedNode"
  | .malformedComment .. => "MalformedComment"
  | .missingAnchor .. => "MissingAnchor"
  | .invalidIndent .. => "InvalidIndent"
  | .panic .. => "Panic"

def isPanic : Error → Bool
  | .panic _ => true
  | _ => false

end Error

end AnnotatedYaml
