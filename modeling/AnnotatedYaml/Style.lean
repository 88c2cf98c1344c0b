/-! How a YAML node is written: the five ways of writing a scalar and the two of writing a
collection. -/

namespace AnnotatedYaml

inductive ScalarStyle where
  | plain
  | singleQuoted
  | doubleQuoted
  | literal
  | folded
  deriving Repr, BEq, Inhabited, DecidableEq

/-- Literal and folded scalars are written as indented blocks. -/
def ScalarStyle.isBlock : ScalarStyle → Bool
  | .literal | .folded => true
  | _ => false

def ScalarStyle.name : ScalarStyle → String
  | .plain => "plain"
  | .singleQuoted => "single"
  | .doubleQuoted => "double"
  | .literal => "literal"
  | .folded => "folded"

inductive CollectionStyle where
  | block
  | flow
  deriving Repr, BEq, Inhabited, DecidableEq

def CollectionStyle.name : CollectionStyle → String
  | .block => "block"
  | .flow => "flow"

end AnnotatedYaml
