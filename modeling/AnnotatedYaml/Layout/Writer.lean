/-! The output buffer of the YAML writer. -/

namespace AnnotatedYaml

/-- Where the cursor stands. -/
inductive Cursor where
  /-- Nothing written yet. -/
  | start
  /-- At the start of a line: the next word is indented. -/
  | lineStart
  /-- A space is owed before the next word. -/
  | wordEnd
  | inLine
  /-- Right after a `- ` or `? ` bullet, which stands in for indentation. -/
  | bulletEnd
  deriving Repr, BEq, Inhabited

/-- Where a node was written: its depth, whether inside a flow collection, and the depth that
the indentation digit of a block scalar there counts from. -/
structure Placement where
  depth : Nat
  flow : Bool
  blockBase : Nat
  deriving Repr, DecidableEq, Inhabited

structure LineWriter where
  out : String := ""
  cursor : Cursor := .start
  unit : Nat
  /-- The comment texts written so far, in order; each also stands in `out`. -/
  commentLog : List String := []
  /-- The numbers of the lines that body lines of block scalars started, counted from zero. -/
  bodyLines : List Nat := []
  /-- Where each node was written, in order; a record that writes nothing. -/
  placements : List Placement := []
  deriving Inhabited

namespace LineWriter

def pad (w : LineWriter) (width : Nat) : LineWriter :=
  { w with out := w.out ++ String.ofList (List.replicate width ' ') }

/-- Writes `text`, indented to `depth` units at the start of a line. Empty text writes
nothing but cancels an owed space. -/
def write (w : LineWriter) (depth : Nat) (text : String) : LineWriter :=
  if text.isEmpty then
    if w.cursor == .wordEnd then { w with cursor := .inLine } else w
  else
    let w := match w.cursor with
      | .wordEnd => { w with out := w.out.push ' ' }
      | .lineStart => w.pad (w.unit * depth)
      | _ => w
    { w with out := w.out ++ text, cursor := .inLine }

/-- Records where a node is written. -/
def place (w : LineWriter) (p : Placement) : LineWriter :=
  { w with placements := w.placements ++ [p] }

/-- Writes the text of a comment, as `write` does, and records it. -/
def writeComment (w : LineWriter) (depth : Nat) (text : String) : LineWriter :=
  { w.write depth text with commentLog := w.commentLog ++ [text] }

/-- Owes one space before the next word. -/
def space (w : LineWriter) : LineWriter :=
  if w.cursor == .inLine then { w with cursor := .wordEnd } else w

def newline (w : LineWriter) : LineWriter :=
  match w.cursor with
  | .start | .lineStart | .bulletEnd => w
  | _ => { w with out := w.out.push '\n', cursor := .lineStart }

/-- Writes `marker` padded to one indent unit, as `- `. -/
def bullet (w : LineWriter) (depth : Nat) (marker : String) : LineWriter :=
  let w := (w.write depth marker).pad (max (w.unit - marker.length) 1)
  { w with cursor := .bulletEnd }

/-- Drops the padding of a bullet that nothing followed. -/
def closeBullet (w : LineWriter) : LineWriter :=
  if w.cursor == .bulletEnd then
    { w with out := String.ofList (w.out.toList.reverse.dropWhile (· == ' ')).reverse,
             cursor := .inLine }
  else w

/-- One body line of a block scalar on a line of its own, indented by `width`; an empty
line stays empty. -/
def bodyLine (width : Nat) (w : LineWriter) (line : String) : LineWriter :=
  let w := { w with out := w.out.push '\n',
                    bodyLines := w.bodyLines ++ [w.out.toList.count '\n' + 1] }
  if line.isEmpty then w else let w := w.pad width; { w with out := w.out ++ line }

/-- The body lines of a block scalar, one unit deeper than `depth`. -/
def blockLines (w : LineWriter) (depth : Nat) (lines : List String) : LineWriter :=
  { lines.foldl (bodyLine (w.unit * (depth + 1))) w with cursor := .inLine }

/-- The text written, ending with a line break unless empty. -/
def finish (w : LineWriter) : String :=
  if !w.out.isEmpty && w.out.toList.getLast? != some '\n' then w.out.push '\n' else w.out

end LineWriter

end AnnotatedYaml
