/-! Character classes from the Unicode standard that the library's text rules use: the `White_Space`
property, which decides trimming and what separates words, and the control characters (general
category Cc). -/

namespace AnnotatedYaml.Text

/-- The Unicode `White_Space` property: 25 characters. -/
def isWhite (c : Char) : Bool :=
  let n := c.toNat
  (0x09 ≤ n && n ≤ 0x0D) || n == 0x20 || n == 0x85 || n == 0xA0 || n == 0x1680 ||
    (0x2000 ≤ n && n ≤ 0x200A) || n == 0x2028 || n == 0x2029 || n == 0x202F ||
    n == 0x205F || n == 0x3000

/-- Control characters, general category Cc. -/
def isControl (c : Char) : Bool :=
  c.toNat < 0x20 || (0x7F ≤ c.toNat && c.toNat ≤ 0x9F)

/-- Whether `n` lies in one of `rs`, ranges given by their first member and one past their
last. -/
def inRanges (rs : Array (Nat × Nat)) (n : Nat) : Bool :=
  rs.any fun r => r.1 ≤ n && n < r.2

def dropWhite (cs : List Char) : List Char := cs.dropWhile isWhite

def trimStart (s : String) : String := String.ofList (dropWhite s.toList)

def trimEnd (s : String) : String := String.ofList (dropWhite s.toList.reverse).reverse

def trim (s : String) : String := trimEnd (trimStart s)

/-- The words of `s`: maximal runs of characters that are not white space. -/
def words (s : String) : List String :=
  (s.toList.splitBy fun a b => isWhite a == isWhite b)
    |>.filter (fun w => !w.any isWhite && !w.isEmpty) |>.map String.ofList

end AnnotatedYaml.Text
