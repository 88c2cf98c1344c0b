import AnnotatedYaml.Tree.Basic

/-! The comments attributed to the nodes of a tree, kept beside it in a table with one slot per node
number. -/

namespace AnnotatedYaml

/-- The comments owned by one node: those on lines before it, the one on the line where it
ends, and those after its content. -/
structure Attachment where
  leading : List String := []
  trailing : List String := []
  lineEnd : Option String := none
  deriving Repr, BEq, Inhabited

def Attachment.isEmpty (a : Attachment) : Bool :=
  a.leading.isEmpty && a.trailing.isEmpty && a.lineEnd.isNone

/-- Every comment of the slot: leading, then the line-end one, then trailing. -/
def Attachment.all (a : Attachment) : List String :=
  a.leading ++ a.lineEnd.toList ++ a.trailing

structure Comments where
  slots : Array Attachment := #[]
  deriving Repr, Inhabited

namespace Comments

/-- An empty slot for every node of `t`. -/
def forTree (t : Tree) : Comments := ⟨Array.replicate t.size ({} : Attachment)⟩

def get (c : Comments) (i : Nat) : Attachment := c.slots.getD i ({} : Attachment)

def leading (c : Comments) (i : Nat) : List String := (c.get i).leading

def trailing (c : Comments) (i : Nat) : List String := (c.get i).trailing

def lineEnd (c : Comments) (i : Nat) : Option String := (c.get i).lineEnd

/-- Changes slot `i`, growing the table with empty slots up to it. -/
def update (c : Comments) (i : Nat) (f : Attachment → Attachment) : Comments :=
  let slots := if c.slots.size ≤ i then c.slots ++ Array.replicate (i + 1 - c.slots.size) ({} : Attachment)
    else c.slots
  ⟨slots.modify i f⟩

def addLeading (c : Comments) (i : Nat) (xs : List String) : Comments :=
  c.update i fun a => { a with leading := a.leading ++ xs }

def addTrailing (c : Comments) (i : Nat) (xs : List String) : Comments :=
  c.update i fun a => { a with trailing := a.trailing ++ xs }

def setLineEnd (c : Comments) (i : Nat) (x : String) : Comments :=
  c.update i fun a => { a with lineEnd := some x }

/-- The slots that hold a comment, in node order. -/
def filled (c : Comments) : List (Nat × Attachment) :=
  (c.slots.toList.zipIdx.filter fun (a, _) => !a.isEmpty).map fun (a, i) => (i, a)

/-- Every stored comment, slot by slot. -/
def all (c : Comments) : List String := c.slots.toList.flatMap Attachment.all

end Comments

/-- A tree with the comments attributed to its nodes. -/
structure AnnotatedTree where
  tree : Tree
  comments : Comments
  deriving Inhabited

/-- A tree without comments. -/
def AnnotatedTree.bare (t : Tree) : AnnotatedTree := ⟨t, Comments.forTree t⟩

end AnnotatedYaml
