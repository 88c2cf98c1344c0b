import AnnotatedYaml.Layout.Claims
import AnnotatedYaml.Layout.Scalar
import AnnotatedYaml.Layout.Tags
import AnnotatedYaml.Layout.Writer

/-! Writing an annotated tree back as YAML text. -/

namespace AnnotatedYaml

/-- An indentation width the writer accepts: two, three or four spaces. -/
structure IndentWidth where
  width : Nat
  valid : 2 ≤ width ∧ width ≤ 4

def IndentWidth.standard : IndentWidth := ⟨2, by decide, by decide⟩

def IndentWidth.ofNat? (w : Nat) : Except Error IndentWidth :=
  if h : 2 ≤ w ∧ w ≤ 4 then .ok ⟨w, h⟩ else .error (.invalidIndent w)

/-- Where a node is written. -/
structure Frame where
  depth : Nat
  /-- Inside a flow collection. -/
  flow : Bool
  /-- The depth that block scalar indentation digits count from. -/
  blockBase : Nat
  tags : TagScope

def Frame.top (tags : TagScope) : Frame := ⟨0, false, 0, tags⟩

def Frame.placement (frame : Frame) : Placement := ⟨frame.depth, frame.flow, frame.blockBase⟩

abbrev Emit := StateT LineWriter (Except Error)

/-- A mapping's children as key and value pairs. -/
def pairsOf : List Nat → List (Nat × Nat)
  | k :: v :: rest => (k, v) :: pairsOf rest
  | _ => []

/-- The text of a stored comment: it must start with `#` after white space and fit on one
line. -/
def commentText (id : Nat) (text : String) : Except Error String :=
  let trimmed := Text.trimStart text
  if !trimmed.startsWith "#" || trimmed.toList.contains '\n' || trimmed.toList.contains '\r' then
    .error (.malformedComment id text)
  else .ok trimmed

namespace Emit

def out (f : LineWriter → LineWriter) : Emit Unit := modify f

def liftExcept {α : Type} (e : Except Error α) : Emit α :=
  match e with
  | .ok a => pure a
  | .error err => throw err

/-- Each comment on a line of its own. -/
def comments (id depth : Nat) (lines : List String) : Emit Unit := do
  for line in lines do
    let text ← liftExcept (commentText id line)
    out (·.newline)
    out (·.writeComment depth text)
    out (·.newline)

section

variable (t : Tree) (c : Comments) (claims : BulletClaims)

def unexpected (id : Nat) (expected : NodeRole) : Error :=
  .unexpectedNode id (((t.kind? id).map NodeKind.name).getD "") expected

/-- Node `id` is read from the arena: an id past its end is a panic. -/
def lookup (id : Nat) : Emit Unit :=
  if id < t.size then pure () else throw (.panic (.indexOutOfBounds id t.size))

/-- A line-end comment after the node on the same line. -/
def lineEnd (id : Nat) : Emit Bool := do
  match c.lineEnd id with
  | none => return false
  | some line =>
    let text ← liftExcept (commentText id line)
    out (·.space)
    out (·.writeComment 0 text)
    return true

/-- The line-end and trailing comments of a node that ends mid-line. -/
def inlineEnd (id : Nat) (frame : Frame) : Emit Unit := do
  if ← lineEnd c id then out (·.newline)
  comments id frame.depth (c.trailing id)

def scalar (id : Nat) (s : Scalar) (frame : Frame) : Emit Unit := do
  let unit := (← get).unit
  match s.encode frame.flow (unit * (frame.depth + 1 - frame.blockBase)) with
  | .inline text =>
    out (·.write frame.depth text)
    inlineEnd c id frame
  | .block header lines =>
    out (·.write frame.depth header)
    let _ ← lineEnd c id
    out (·.blockLines frame.depth lines)
    comments id frame.depth (c.trailing id)

/-- The anchor and the tag of a node, each followed by a space. -/
def properties (k : NodeKind) (frame : Frame) : Emit Unit := do
  if let some a := k.anchor then
    out (·.write frame.depth ("&" ++ a))
    out (·.space)
  if let some tag := k.tag then
    out (·.write frame.depth (frame.tags.render tag))
    out (·.space)

/-- The comments after the last entry of a block collection. -/
def blockEnd (id depth : Nat) : Emit Unit := do
  if let some line := c.lineEnd id then comments id depth [line]
  comments id depth (c.trailing id)

mutual

def node : Nat → Nat → Frame → Emit Unit
  | 0, _, _ => pure ()
  | fuel + 1, id, frame => do
    if !claims.isClaimed id then comments id frame.depth (c.leading id)
    content fuel id frame

/-- Everything but the leading comments. -/
def content : Nat → Nat → Frame → Emit Unit
  | 0, _, _ => pure ()
  | fuel + 1, id, frame => do
    lookup t id
    let some k := t.kind? id | pure ()
    out (·.place frame.placement)
    properties k frame
    match k with
    | .scalar s => scalar c id s frame
    | .alias name =>
      out (·.write frame.depth ("*" ++ name))
      inlineEnd c id frame
    | .mapping col =>
      if t.rendersInFlow id frame.flow then flowMapping fuel id col.children frame
      else blockMapping fuel id col.children frame
    | .sequence col =>
      if t.rendersInFlow id frame.flow then flowSequence fuel id col.children frame
      else blockSequence fuel id col.children frame
    | .document _ | .stream _ => throw (unexpected t id .content)

def flowMapping : Nat → Nat → List Nat → Frame → Emit Unit
  | 0, _, _, _ => pure ()
  | fuel + 1, id, kids, frame => do
    let inner := { frame with depth := frame.depth + 1, flow := true }
    out (·.write frame.depth "\x7b")
    for ((key, value), i) in (pairsOf kids).zipIdx do
      if i > 0 then
        out (·.write inner.depth ",")
        out (·.space)
      node fuel key inner
      lookup t value
      if !t.isBareNull c value then
        lookup t key
        if t.needsSpaceBeforeColon key then out (·.space)
        out (·.write inner.depth ":")
        out (·.space)
        node fuel value inner
    out (·.write frame.depth "\x7d")
    inlineEnd c id frame

def flowSequence : Nat → Nat → List Nat → Frame → Emit Unit
  | 0, _, _, _ => pure ()
  | fuel + 1, id, kids, frame => do
    let inner := { frame with depth := frame.depth + 1, flow := true }
    out (·.write frame.depth "[")
    for (child, i) in kids.zipIdx do
      if i > 0 then
        out (·.write inner.depth ",")
        out (·.space)
      node fuel child inner
    out (·.write frame.depth "]")
    inlineEnd c id frame

def blockMapping : Nat → Nat → List Nat → Frame → Emit Unit
  | 0, _, _, _ => pure ()
  | fuel + 1, id, kids, frame => do
    let entry := { frame with blockBase := frame.depth }
    out (·.newline)
    for (key, value) in pairsOf kids do
      lookup t key
      if t.needsExplicitKey c key then explicitEntry fuel key value entry
      else
        node fuel key entry
        lookup t key
        if t.needsSpaceBeforeColon key then out (·.space)
        out (·.write frame.depth ":")
        out (·.space)
        mappingValue fuel value entry
      out (·.newline)
    blockEnd c id frame.depth

/-- A mapping value after `key:`. -/
def mappingValue : Nat → Nat → Frame → Emit Unit
  | 0, _, _ => pure ()
  | fuel + 1, value, frame => do
    lookup t value
    if t.isSingleLine c value || t.hasBullets value then node fuel value frame
    else
      if !(c.leading value).isEmpty then out (·.newline)
      node fuel value { frame with depth := frame.depth + 1 }

/-- `? key` and `: value` for a key that does not fit before a `:`. -/
def explicitEntry : Nat → Nat → Nat → Frame → Emit Unit
  | 0, _, _, _ => pure ()
  | fuel + 1, key, value, frame => do
    let nested := { frame with depth := frame.depth + 1 }
    for (indicator, n) in [("?", key), (":", value)] do
      out (·.newline)
      if !claims.isClaimed n then comments n frame.depth (c.leading n)
      out (·.bullet frame.depth indicator)
      content fuel n nested
      out (·.closeBullet)

def blockSequence : Nat → Nat → List Nat → Frame → Emit Unit
  | 0, _, _, _ => pure ()
  | fuel + 1, id, kids, frame => do
    let itemFrame := { frame with depth := frame.depth + 1, blockBase := frame.depth }
    out (·.newline)
    for item in kids do
      for h in claims.hoistedOf item do
        comments h frame.depth (c.leading h)
      out (·.bullet frame.depth "-")
      node fuel item itemFrame
      out (·.closeBullet)
      out (·.newline)
    blockEnd c id frame.depth

end

/-- A document's `%TAG` directives, then `---` when the document needs it: when it was
written, has directives, or follows a document left open. -/
def documentStart (d : Document) (followsOpen : Bool) : Emit Unit := do
  for dir in d.tagDirectives do
    out (·.newline)
    out (·.write 0 ("%TAG " ++ dir.handle ++ " " ++ dir.expansion))
    out (·.newline)
  if !d.implicitStart || !d.tagDirectives.isEmpty || followsOpen then
    out (·.newline)
    out (·.write 0 "---")
    if (c.leading d.root).isEmpty then out (·.space) else out (·.newline)

/-- Writes a document; answers whether it was closed with `...`. -/
def document (fuel id : Nat) (d : Document) (followsOpen nextHasDirectives : Bool) :
    Emit Bool := do
  comments id 0 (c.leading id)
  documentStart c d followsOpen
  node t c claims fuel d.root (Frame.top (TagScope.forDocument d.tagDirectives))
  out (·.newline)
  let ended := !d.implicitEnd || nextHasDirectives
  if ended then
    out (·.write 0 "...")
    out (·.newline)
  comments id 0 (c.trailing id)
  return ended

/-- Whether the document after this one, if any, has `%TAG` directives. -/
def nextHasDirectives : Option Nat → Emit Bool
  | none => pure false
  | some next => do
    lookup t next
    match t.kind? next with
    | some (.document e) => pure !e.tagDirectives.isEmpty
    | _ => pure false

def stream (fuel id : Nat) (docs : List Nat) : Emit Unit := do
  comments id 0 (c.leading id)
  let mut followsOpen := false
  for (docId, i) in docs.zipIdx do
    lookup t docId
    match t.kind? docId with
    | some (.document d) =>
      let nextTagged ← nextHasDirectives t docs[i + 1]?
      let ended ← document t c claims fuel docId d followsOpen nextTagged
      followsOpen := !ended
    | _ => throw (unexpected t docId .document)
  comments id 0 (c.trailing id)

def root (fuel id : Nat) : Emit Unit := do
  lookup t id
  match t.kind? id with
  | some (.stream docs) => stream t c claims fuel id docs
  | some (.document d) => let _ ← document t c claims fuel id d false false
  | _ =>
    node t c claims fuel id (Frame.top TagScope.standard)
    out (·.newline)

end

end Emit

/-- Writes an annotated tree with the given indentation width; the writer holds the text. -/
def AnnotatedTree.write (a : AnnotatedTree) (indent : IndentWidth) : Except Error LineWriter :=
  match a.tree.root? with
  | none => .ok { unit := indent.width }
  | some r =>
    let claims := BulletClaims.collect a.tree a.comments
    let fuel := 8 * (a.tree.size + 1)
    match (Emit.root a.tree a.comments claims fuel r).run { unit := indent.width } with
    | .ok ((), w) => .ok w
    | .error e => .error e

/-- Writes an annotated tree as YAML text with the given indentation width. -/
def AnnotatedTree.render (a : AnnotatedTree) (indent : IndentWidth) : Except Error String :=
  (a.write indent).map LineWriter.finish

end AnnotatedYaml
