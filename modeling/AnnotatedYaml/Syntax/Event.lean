import AnnotatedYaml.Syntax.Token.Lexer

/-! Events of a YAML stream: the start and end of the stream, of each document and of each
collection, and one event for each scalar and alias. -/

namespace AnnotatedYaml.Syntax

/-- A resolved tag: the prefix its handle stands for, and the suffix written after it. -/
structure Tag where
  handle : String
  suffix : String
  deriving Repr, BEq, Inhabited

def Tag.text (t : Tag) : String := t.handle ++ t.suffix

inductive Event where
  | streamStart
  | streamEnd
  | documentStart (explicit : Bool)
  | documentEnd
  | alias (anchor : Nat)
  | scalar (value : String) (style : ScalarStyle) (anchor : Nat) (tag : Option Tag)
  | sequenceStart (anchor : Nat) (tag : Option Tag)
  | sequenceEnd
  | mappingStart (anchor : Nat) (tag : Option Tag)
  | mappingEnd
  deriving Repr, Inhabited

/-- The scalar that stands for an omitted node: `~`, the null, when nothing is written;
empty text when only an anchor or a tag is. -/
def Event.emptyScalar (anchor : Nat) (tag : Option Tag) : Event :=
  .scalar (if anchor == 0 && tag.isNone then "~" else "") .plain anchor tag

end AnnotatedYaml.Syntax
