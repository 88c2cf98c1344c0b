import AnnotatedYaml.Text.Blank
import AnnotatedYaml.Text.Position

/-! A text seen as lines, addressed by positions and by byte offsets. -/

namespace AnnotatedYaml.Text

def byteLength (cs : List Char) : Nat := cs.foldl (fun n c => n + c.utf8Size) 0

def splitLines : List Char → List Char → List (List Char)
  | [], cur => if cur.isEmpty then [] else [cur.reverse]
  | c :: rest, cur =>
    if c == '\n' then (c :: cur).reverse :: splitLines rest [] else splitLines rest (c :: cur)

/-- Whether `line` is a document marker line such as `--- !tag` or `... # end`: the marker,
then white space or nothing. -/
def isMarkerLine (line marker : List Char) : Bool :=
  marker.isPrefixOf line &&
    match line.drop marker.length with
    | [] => true
    | c :: _ => isWhite c

/-- The character index of the first `#` of `line` that starts a comment: at the start or
after white space, outside quotes. -/
def commentStart (line : List Char) : Option Nat :=
  let rec go : List Char → Nat → Bool → Bool → Option Char → Option Nat
    | [], _, _, _, _ => none
    | c :: rest, i, single, double, prev =>
      if c == '\'' && !double then go rest (i + 1) (!single) double (some c)
      else if c == '"' && !single && prev != some '\\' then go rest (i + 1) single (!double) (some c)
      else if c == '#' && !single && !double && (prev.map isWhite).getD true then some i
      else go rest (i + 1) single double (some c)
  go line 0 false false none

/-- The greatest `i` below `hi`, and at least `lo`, with `f i ≤ b`, for `f` growing in `i` and
`f lo ≤ b`: found by halving. -/
def lastAtMost (f : Nat → Nat) (b : Nat) (lo hi : Nat) : Nat :=
  go lo hi (hi + 1)
where
  go (lo hi : Nat) : Nat → Nat
    | 0 => lo
    | fuel + 1 =>
      if hi ≤ lo + 1 then lo
      else
        let mid := (lo + hi) / 2
        if f mid ≤ b then go mid hi fuel else go lo mid fuel

structure SourceText where
  text : String
  lines : Array (List Char)
  /-- Byte offset of the first character of each line. -/
  starts : Array Nat
  size : Nat
  /-- The text in UTF-8. -/
  bytes : ByteArray
  /-- The characters of the text. -/
  chars : Array Char
  /-- Byte offset of each character, and last of the end of the text. -/
  offsets : Array Nat
  /-- Index in `chars` of the first character of each line. -/
  lineStarts : Array Nat
  deriving Inhabited

namespace SourceText

def ofString (text : String) : SourceText :=
  let lines := splitLines text.toList []
  let starts := (lines.foldl (fun (acc : Array Nat × Nat) l => (acc.1.push acc.2, acc.2 + byteLength l))
    (#[], 0)).1
  let lineStarts := (lines.foldl (fun (acc : Array Nat × Nat) l => (acc.1.push acc.2, acc.2 + l.length))
    (#[], 0)).1
  let chars := text.toList.toArray
  let offsets := (chars.foldl (fun (acc : Array Nat × Nat) c => (acc.1.push acc.2, acc.2 + c.utf8Size))
    (#[], 0))
  { text, lines := lines.toArray, starts, size := text.utf8ByteSize, bytes := text.toUTF8, chars,
    offsets := offsets.1.push offsets.2, lineStarts }

def lineCount (s : SourceText) : Nat := s.lines.size

def line (s : SourceText) (i : Nat) : List Char := s.lines.getD i []

def lineLength (s : SourceText) (i : Nat) : Nat :=
  if i < s.lines.size then s.lineStarts.getD (i + 1) s.chars.size - s.lineStarts.getD i 0 else 0

/-- The number of characters of line `i` without its break: a final `\n`, and a `\r` before
it, are not counted. -/
def contentLength (s : SourceText) (i : Nat) : Nat :=
  let start := s.lineStarts.getD i 0
  let n := s.lineLength i
  let n := if n > 0 && s.chars[start + n - 1]? == some '\n' then n - 1 else n
  if n > 0 && s.chars[start + n - 1]? == some '\r' then n - 1 else n

def lineContent (s : SourceText) (i : Nat) : List Char :=
  let start := s.lineStarts.getD i 0
  (s.chars.extract start (start + s.contentLength i)).toList

def endPos (s : SourceText) : Position :=
  match s.lines.back? with
  | none => ⟨0, 0⟩
  | some last => if last.getLast? == some '\n' then ⟨s.lines.size, 0⟩
    else ⟨s.lines.size - 1, last.length⟩

/-- Whether `p` addresses a character of the text, the end of a line, or the end. -/
def contains (s : SourceText) (p : Position) : Bool :=
  if p.line < s.lines.size then p.column ≤ s.lineLength p.line else p == s.endPos

/-- The index in `chars` of `p`, its column cut to its line; a line past the text gives the
end. -/
def index (s : SourceText) (p : Position) : Nat :=
  if p.line < s.lines.size then s.lineStarts.getD p.line 0 + min p.column (s.lineLength p.line)
  else s.chars.size

def charAt (s : SourceText) (p : Position) : Option Char :=
  if p.column < s.lineLength p.line then s.chars[s.lineStarts.getD p.line 0 + p.column]? else none

/-- Whether byte `b` starts a character of the text or is its end. -/
def isBoundary (s : SourceText) (b : Nat) : Bool := s.offsets.contains b

/-- Byte offset of `p`, clamped to its line and to the text. -/
def byteOffset (s : SourceText) (p : Position) : Nat := s.offsets.getD (s.index p) s.size

/-- The last line that starts at or before byte `b`. -/
def lineOfByte (s : SourceText) (b : Nat) : Nat := lastAtMost (s.starts.getD · 0) b 0 s.starts.size

/-- Position of byte offset `b`, clamped to the text: a character that `b` falls inside counts
as before it. -/
def positionAt (s : SourceText) (b : Nat) : Position :=
  let b := min b s.size
  let line := s.lineOfByte b
  match s.lineStarts[line]? with
  | none => s.endPos
  | some first =>
    if line + 1 == s.lines.size && b == s.size then s.endPos
    else
      -- the first character that starts at or after `b`
      let i := lastAtMost (fun k => s.offsets.getD k 0 + 1) b first (s.chars.size + 1)
      let i := if s.offsets.getD i 0 < b then i + 1 else i
      ⟨line, i - first⟩

def positionOfIndex (s : SourceText) (i : Nat) : Position :=
  let line := lastAtMost (s.lineStarts.getD · 0) i 0 s.lineStarts.size
  ⟨line, i - s.lineStarts.getD line 0⟩

/-- The position itself, with its column cut to its line and a line past the text moved to
the end. Both name the same byte. -/
def clamp (s : SourceText) (p : Position) : Position :=
  if p.line < s.lines.size then ⟨p.line, min p.column (s.lineLength p.line)⟩
  else ⟨s.lines.size, 0⟩

/-- The text from `lo` up to `hi`; empty when `hi` is not after `lo`. -/
def slice (s : SourceText) (lo hi : Position) : List Char :=
  if hi ≤ lo then [] else (s.chars.extract (s.index lo) (s.index hi)).toList

/-- The text from byte `lo` up to byte `hi`: the characters that start in between. -/
def sliceBytes (s : SourceText) (lo hi : Nat) : List Char := s.slice (s.positionAt lo) (s.positionAt hi)

/-- The last place before `p` where `c` stands with text after it, up to `p` or to the end of
its line, that satisfies `ok`. Lines are searched from `p` backwards. -/
def lastBefore (s : SourceText) (p : Position) (c : Char) (ok : List Char → Bool) : Option Position :=
  go p.line (p.line + 1)
where
  inLine (l : Nat) (seg : List Char) : Option Position :=
    (seg.zipIdx.reverse.find? fun (x, i) => x == c && ok (seg.drop (i + 1))).map fun (_, i) => ⟨l, i⟩
  go (l : Nat) : Nat → Option Position
    | 0 => none
    | fuel + 1 =>
      let seg := if l == p.line then (s.line l).take p.column else s.line l
      match inLine l seg with
      | some q => some q
      | none => if l == 0 then none else go (l - 1) fuel

/-- The text from `p` to the end of its line, without the line break. -/
def restOfLine (s : SourceText) (p : Position) : List Char :=
  if p.line < s.lines.size then
    let start := s.lineStarts.getD p.line 0
    (s.chars.extract (start + p.column) (start + s.contentLength p.line)).toList
  else []

/-- The characters from `p` on that satisfy `keep`, up to the end of the line's content. -/
def takeWhileFrom (s : SourceText) (p : Position) (keep : Char → Bool) : List Char :=
  let start := s.lineStarts.getD p.line 0
  let stop := start + s.contentLength p.line
  let rec go (i : Nat) (acc : Array Char) : Nat → List Char
    | 0 => acc.toList
    | fuel + 1 =>
      match s.chars[i]? with
      | some c => if i < stop && keep c then go (i + 1) (acc.push c) fuel else acc.toList
      | none => acc.toList
  if p.line < s.lines.size then go (start + p.column) #[] (s.contentLength p.line + 1) else []

/-- Byte offset of the first line that starts at or after byte `lo` with `marker` followed
by white space or nothing. -/
def findMarkerLine (s : SourceText) (lo : Nat) (marker : List Char) : Option Nat :=
  go (s.positionAt lo).line (s.lines.size + 1)
where
  go (i : Nat) : Nat → Option Nat
    | 0 => none
    | fuel + 1 =>
      match s.starts[i]? with
      | some start => if start ≥ lo && isMarkerLine (s.line i) marker then some start else go (i + 1) fuel
      | none => none

end SourceText

end AnnotatedYaml.Text
