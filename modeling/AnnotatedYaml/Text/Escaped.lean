import AnnotatedYaml.Text.ExtendingMark
import AnnotatedYaml.Text.DefaultIgnorable
import AnnotatedYaml.Text.Invisible

/-! Quoting text for error messages: the text between double quotes, with quotes, backslashes, tabs
and line breaks escaped by a backslash, and characters that do not print written as `\u` and
their hexadecimal code in braces. -/

namespace AnnotatedYaml.Text

/-- Characters written by their code: those with no visible form of their own, those that
renderers may show as nothing, and those that would attach to the character before them. -/
def isHidden (c : Char) : Bool := isExtendingMark c || isInvisible c || isDefaultIgnorable c

def hexDigits (n : Nat) : List Char :=
  if n < 16 then [Nat.digitChar n] else hexDigits (n / 16) ++ [Nat.digitChar (n % 16)]
decreasing_by omega

def escapeChar (c : Char) : List Char :=
  match c with
  | '"' => ['\\', '"']
  | '\\' => ['\\', '\\']
  | '\t' => ['\\', 't']
  | '\r' => ['\\', 'r']
  | '\n' => ['\\', 'n']
  | '\x00' => ['\\', '0']
  | _ => if isHidden c then ['\\', 'u', '\x7b'] ++ hexDigits c.toNat ++ ['\x7d'] else [c]

def quoted (s : String) : String :=
  String.ofList ('"' :: s.toList.flatMap escapeChar ++ ['"'])

end AnnotatedYaml.Text
