import AnnotatedYaml.Layout.Classify
import AnnotatedYaml.Text.Source

/-! Attributing the comments of a text to the nodes of its tree. -/

namespace AnnotatedYaml

open Text

/-- What the text between two nodes holds that matters here. -/
inductive GapItem where
  | bullet
  | comment (text : String)
  deriving Repr, BEq, Inhabited

/-- The bullets and comments of a stretch of text between nodes. A comment runs to the end
of its line; node properties (`&a`, `!t`) are skipped up to the next white space. -/
def gapItems : List Char → List GapItem
  | [] => []
  | c :: rest =>
    if c == '&' || c == '!' then gapItems (rest.dropWhile fun d => !isWhite d)
    else if c == '-' then .bullet :: gapItems rest
    else if c == '#' then
      let line := rest.takeWhile (· != '\n')
      let text := c :: line
      let text := if text.getLast? == some '\r' then text.dropLast else text
      .comment (String.ofList text) :: gapItems (rest.dropWhile (· != '\n'))
    else gapItems rest
termination_by cs => cs.length
decreasing_by
  · have := (@List.dropWhile_suffix _ rest fun d => !isWhite d).length_le
    simp only [List.length_cons]; omega
  · simp only [List.length_cons]; omega
  · have := (@List.dropWhile_suffix _ rest (· != '\n')).length_le
    simp only [List.length_cons]; omega
  · simp only [List.length_cons]; omega

structure Analyzer where
  source : SourceText
  tree : Tree
  comments : Comments
  /-- End of the last stretch of text searched. -/
  last : Position := Position.zero
  /-- The block sequence item whose `- ` may precede the next comments. -/
  bulletOwner : Option Nat := none
  /-- The first node looked up past the end of the tree, where the walk would panic; it
  changes nothing else. -/
  panicked : Option Panic := none

namespace Analyzer

abbrev M := StateM Analyzer

/-- Node `id` is looked up in the tree. -/
def lookup (id : Nat) : M Unit :=
  modify fun a => if id < a.tree.size || a.panicked.isSome then a
    else { a with panicked := some (.indexOutOfBounds id a.tree.size) }

/-- The comments between the cursor and `upto`; moves the cursor there. Comments before a
bullet go to the pending item. -/
def readComments (upto : Position) : M (List String) := do
  let a ← get
  let items := gapItems (a.source.slice a.last upto)
  set { a with last := upto, bulletOwner := none }
  let mut buffered : List String := []
  for item in items do
    match item with
    | .bullet =>
      if let some owner := a.bulletOwner then
        if !buffered.isEmpty then
          modify fun a => { a with comments := a.comments.addLeading owner buffered }
          buffered := []
    | .comment text => buffered := buffered ++ [text]
  return buffered

def lead (id : Nat) (upto : Position) : M Unit := do
  let found ← readComments upto
  if !found.isEmpty then modify fun a => { a with comments := a.comments.addLeading id found }

def trail (id : Nat) (upto : Position) : M Unit := do
  let found ← readComments upto
  if !found.isEmpty then modify fun a => { a with comments := a.comments.addTrailing id found }

/-- A comment on a block scalar's header line, as in `key: | # note`. -/
def blockHeaderComment (id : Nat) (start : Position) : M Unit := do
  let a ← get
  let header := a.source.restOfLine start
  match commentStart header with
  | none => pure ()
  | some at0 =>
    let text := trimEnd (String.ofList (header.drop at0))
    set { a with comments := a.comments.setLineEnd id text,
                 last := max a.last (start.shift header.length) }

/-- A comment after a node on the line where it ends, as in `key: value # note`. -/
def sameLineComment (id : Nat) (stop : Position) : M Unit := do
  let a ← get
  let blank := a.source.takeWhileFrom stop isWhite
  if a.source.charAt (stop.shift blank.length) == some '#' &&
      blank.length < a.source.contentLength stop.line - stop.column then
    let rest := a.source.restOfLine (stop.shift blank.length)
    let text := trimEnd (String.ofList rest)
    set { a with comments := a.comments.setLineEnd id text,
                 last := stop.shift (blank.length + rest.length) }

def visit : Nat → Nat → M Unit
  | 0, _ => pure ()
  | fuel + 1, id => do
    lookup id
    let a ← get
    let some n := a.tree.get? id | pure ()
    match n.kind with
    | .scalar s =>
      lead id n.start
      modify fun a => { a with last := n.stop }
      if s.style.isBlock then blockHeaderComment id n.start else sameLineComment id n.stop
    | .alias _ =>
      lead id n.start
      modify fun a => { a with last := n.stop }
      sameLineComment id n.stop
    | .mapping c | .sequence c =>
      let delimited := match a.source.charAt n.start with
        | some '{' | some '[' => true
        | _ => false
      let bullets := !delimited && a.tree.hasBullets id
      if delimited then lead id n.start
      for child in c.children do
        if bullets then modify fun a => { a with bulletOwner := some child }
        visit fuel child
      if delimited then
        trail (c.children.getLast?.getD id) n.stop
        sameLineComment id n.stop
    | .document d =>
      if !d.implicitStart then lead id n.start
      visit fuel d.root
      if !d.implicitEnd then trail d.root n.stop
    | .stream docs =>
      for doc in docs do
        visit fuel doc
      if let some last := docs.getLast? then lookup last
      let target := match docs.getLast? with
        | none => id
        | some last => match a.tree.kind? last with
          | some (.document d) => if d.implicitEnd then d.root else last
          | _ => last
      trail target n.stop

end Analyzer

/-- The first node, in arena order, with a position outside the text or a span that ends
before it starts. -/
def Tree.checkPositions (t : Tree) (source : SourceText) : Except Error Unit := do
  for (n, i) in t.nodes.toList.zipIdx do
    for p in [n.start, n.stop] do
      if !source.contains p then throw (.positionOutOfBounds i p source.lineCount)
    if n.stop < n.start then throw (.invertedSpan i n.start n.stop)

/-- Attributes every comment of `text` to a node of `t`, which must have been read from it. -/
def Tree.attachComments (text : String) (t : Tree) : Except Error AnnotatedTree := do
  let source := SourceText.ofString text
  t.checkPositions source
  match t.root? with
  | none => return ⟨t, Comments.forTree t⟩
  | some r =>
    let a : Analyzer := { source, tree := t, comments := Comments.forTree t }
    let ((), a) := (Analyzer.visit (t.size + 1) r).run a
    return ⟨t, a.comments⟩

end AnnotatedYaml
