import AnnotatedYaml.Text.Blank

/-! Filling a message into lines of bounded width. -/

namespace AnnotatedYaml.Text

inductive Piece
  /-- Running text, broken at its spaces when a line is full. -/
  | text (s : String)
  /-- Characters written as they are, never the place of a break. -/
  | mark (s : String)
  deriving BEq, Repr, Inhabited

inductive Chunk
  /-- A word, or one space. -/
  | word (s : String)
  /-- A line kept as it is written, less the four spaces that open it. -/
  | code (s : String)
  /-- The end of a paragraph: a blank line in the text. -/
  | paragraph
  /-- A line break that the text asks for: a break followed by a space. -/
  | lineBreak
  deriving BEq, Repr, Inhabited

/-- The column a code line is taken to reach: past any width a message is filled to. -/
def codeWidth : Nat := 1000

def endsWord (c : Char) : Bool := c == ' ' || c == '\n'

/-- The next chunk of `cs` and what is left after it; `fresh` says that a paragraph has just
ended, so four spaces open a code line. -/
def nextChunk (fresh : Bool) : List Char → Option (Chunk × List Char)
  | [] => none
  | '\n' :: ' ' :: ' ' :: ' ' :: ' ' :: rest =>
    some (.code (String.ofList (rest.takeWhile (· != '\n'))), rest.dropWhile (· != '\n'))
  | '\n' :: '\n' :: rest => some (.paragraph, rest)
  | '\n' :: ' ' :: rest => some (.lineBreak, rest)
  | '\n' :: rest => some (.word " ", rest)
  | ' ' :: ' ' :: ' ' :: ' ' :: rest =>
    if fresh then some (.code (String.ofList (rest.takeWhile (· != '\n'))), rest.dropWhile (· != '\n'))
    else some (.word " ", ' ' :: ' ' :: ' ' :: rest)
  | ' ' :: rest => some (.word " ", rest)
  | c :: rest => some (.word (String.ofList (c :: rest.takeWhile (!endsWord ·))),
      rest.dropWhile (!endsWord ·))

/-- The chunks of `cs`, taking at most `fuel` of them; every chunk takes at least one
character, so the length of `cs` is fuel enough. -/
def chunksOf : Nat → Bool → List Char → List Chunk
  | 0, _, _ => []
  | fuel + 1, fresh, cs =>
    match nextChunk fresh cs with
    | none => []
    | some (c, rest) => c :: chunksOf fuel (c == .paragraph) rest

def chunks (s : String) : List Chunk := chunksOf s.length false s.toList

structure Filled where
  out : String := ""
  column : Nat := 0
  deriving Inhabited

namespace Filled

/-- Writes `s`, which advances the column by `w`, first starting a new line when its bytes would
run past `width`. -/
def place (width : Nat) (f : Filled) (s : String) (w : Nat) : Filled :=
  if !f.out.isEmpty && f.column + s.utf8ByteSize > width then
    let out := (trimEnd f.out).push '\n'
    if s == " " then ⟨out, 0⟩ else ⟨out ++ s, w⟩
  else ⟨f.out ++ s, f.column + w⟩

def chunk (width : Nat) (f : Filled) : Chunk → Filled
  | .word s => f.place width s s.length
  | .code s => f.place width s codeWidth
  | .paragraph | .lineBreak => ⟨f.out.push '\n', 0⟩

def piece (width : Nat) (f : Filled) : Piece → Filled
  | .text s => (chunks s).foldl (chunk width) f
  | .mark s => ⟨f.out ++ s, f.column + s.length⟩

end Filled

/-- Joins neighbouring pieces of running text, which are cut into chunks as one. -/
def joinText : List Piece → List Piece
  | .text a :: .text b :: rest => joinText (.text (a ++ b) :: rest)
  | p :: rest => p :: joinText rest
  | [] => []
termination_by ps => ps.length

/-- The message filled into lines of at most `width` characters where its words allow. -/
def fill (width : Nat) (ps : List Piece) : String :=
  ((joinText ps).foldl (Filled.piece width) {}).out

end AnnotatedYaml.Text
