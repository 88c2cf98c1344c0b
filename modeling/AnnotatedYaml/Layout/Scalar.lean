import AnnotatedYaml.Tree.Basic
import AnnotatedYaml.Text.Escaped

/-! How a scalar is written. -/

namespace AnnotatedYaml

/-- A scalar as it is written: on the current line, or as a header and body lines. -/
inductive Encoded where
  | inline (text : String)
  | block (header : String) (lines : List String)
  deriving Repr, BEq, DecidableEq, Inhabited

namespace Encoded

def isIndicator (c : Char) : Bool :=
  "-?:,[]{}#&*!|>'\"%@`".toList.contains c

def isFlowIndicator (c : Char) : Bool := ",[]{}".toList.contains c

/-- Characters written as they are: all but controls and the byte order mark. -/
def isPrintable (c : Char) : Bool := !Text.isControl c && c != '\uFEFF'

/-- Whether `a` stands right before `b` somewhere in `cs`. -/
def hasPair (a b : Char) : List Char → Bool
  | x :: y :: rest => (x == a && y == b) || hasPair a b (y :: rest)
  | _ => false

/-- Whether `value` reads back as itself when written plain. -/
def isPlainSafe (value : String) (inFlow : Bool) : Bool :=
  match value.toList with
  | [] => false
  | first :: rest =>
    let continues := match rest with
      | c :: _ => !Text.isWhite c && !(inFlow && isFlowIndicator c)
      | [] => false
    let cs := first :: rest
    !(isIndicator first && (!(first == '-' || first == '?' || first == ':') || !continues)) &&
      !Text.isWhite first && !(cs.getLast?.map Text.isWhite).getD false &&
      cs.getLast? != some ':' && !"---".toList.isPrefixOf cs && !"...".toList.isPrefixOf cs &&
      !hasPair ':' ' ' cs && !hasPair ':' '\t' cs &&
      !hasPair ' ' '#' cs && !hasPair '\t' '#' cs &&
      !(inFlow && cs.any isFlowIndicator) &&
      cs.all fun c => c != '\t' && isPrintable c

def isSingleQuotable (value : String) : Bool := value.toList.all fun c => c == '\t' || isPrintable c

def singleQuoted (value : String) : String :=
  String.ofList ('\'' :: (value.toList.flatMap fun c => if c == '\'' then ['\'', '\''] else [c]) ++ ['\''])

def hexUpper (n width : Nat) : List Char :=
  let ds := (Text.hexDigits n).map Char.toUpper
  List.replicate (width - ds.length) '0' ++ ds

def escapeDouble (c : Char) : List Char :=
  match c with
  | '"' => ['\\', '"']
  | '\\' => ['\\', '\\']
  | '\x00' => ['\\', '0']
  | '\x07' => ['\\', 'a']
  | '\x08' => ['\\', 'b']
  | '\t' => ['\\', 't']
  | '\n' => ['\\', 'n']
  | '\x0b' => ['\\', 'v']
  | '\x0c' => ['\\', 'f']
  | '\r' => ['\\', 'r']
  | '\x1b' => ['\\', 'e']
  | '\x85' => ['\\', 'N']
  | '\xa0' => ['\\', '_']
  | '\u2028' => ['\\', 'L']
  | '\u2029' => ['\\', 'P']
  | _ =>
    if isPrintable c then [c]
    else if c.toNat ≤ 0xFF then ['\\', 'x'] ++ hexUpper c.toNat 2
    else ['\\', 'u'] ++ hexUpper c.toNat 4

def doubleQuoted (value : String) : String :=
  String.ofList ('"' :: value.toList.flatMap escapeDouble ++ ['"'])

def isBlockSafe (value : String) : Bool :=
  value.toList.all fun c => c == '\n' || c == '\t' || isPrintable c

/-- Lines starting with a blank are never folded. -/
def isFoldingLine (line : String) : Bool :=
  match line.toList with
  | [] => false
  | c :: _ => c != ' ' && c != '\t'

/-- A line break between two folding lines reads back as a space, so it is written as an
extra empty line. -/
def unfold : List String → List String
  | [] => []
  | line :: rest =>
    let next := rest.find? (fun l => !l.isEmpty)
    if isFoldingLine line && (next.map isFoldingLine).getD false then line :: "" :: unfold rest
    else line :: unfold rest

def blockOf (value : String) (folded : Bool) (indent : Nat) : Encoded :=
  let cs := value.toList
  let body := (cs.reverse.dropWhile (· == '\n')).reverse
  let breaks := cs.length - body.length
  let chomp := if breaks == 0 then "-" else if breaks == 1 && !body.isEmpty then "" else "+"
  let lines := if body.isEmpty then [] else (body.splitOn '\n').map String.ofList
  let lines := if folded then unfold lines else lines
  let extra := if body.isEmpty then breaks else breaks - 1
  let lines := lines ++ List.replicate extra ""
  let needsIndicator := match lines.find? (fun l => !l.isEmpty) with
    | some l => l.toList.head? == some ' '
    | none => false
  let indicator := if needsIndicator then toString indent else ""
  .block ((if folded then ">" else "|") ++ indicator ++ chomp) lines

end Encoded

/-- Encodes a scalar in its own style if that style can hold its value. `indent` is the body
indentation relative to the parent node, written as the indentation digit when the body
starts with a space. -/
def Scalar.encode (s : Scalar) (inFlow : Bool) (indent : Nat) : Encoded :=
  let v := s.value
  match s.style with
  | .plain =>
    if v.isEmpty || Encoded.isPlainSafe v inFlow then .inline v
    else if Encoded.isSingleQuotable v then .inline (Encoded.singleQuoted v)
    else .inline (Encoded.doubleQuoted v)
  | .singleQuoted =>
    if Encoded.isSingleQuotable v then .inline (Encoded.singleQuoted v)
    else .inline (Encoded.doubleQuoted v)
  | .literal | .folded =>
    if !inFlow && Encoded.isBlockSafe v then Encoded.blockOf v (s.style == .folded) indent
    else .inline (Encoded.doubleQuoted v)
  | .doubleQuoted => .inline (Encoded.doubleQuoted v)

end AnnotatedYaml
