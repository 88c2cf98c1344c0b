import AnnotatedYaml.Comment.Table

/-! Questions about a node that decide how it is laid out, shared by the comment attribution and the
writer. -/

namespace AnnotatedYaml.Tree

/-- Whether node `i` fits after `key:` on the key's line: a scalar or alias, or an empty
collection, without leading or trailing comments. -/
def isSingleLine (t : Tree) (c : Comments) (i : Nat) : Bool :=
  let uncommented := (c.leading i).isEmpty && (c.trailing i).isEmpty
  match t.kind? i with
  | some (.scalar _) | some (.alias _) => uncommented
  | some (.mapping col) | some (.sequence col) => col.children.isEmpty && uncommented
  | _ => false

/-- Whether node `i` is a non-empty block sequence, whose items start with `- `. -/
def hasBullets (t : Tree) (i : Nat) : Bool :=
  match t.kind? i with
  | some (.sequence col) => !col.children.isEmpty && col.style == .block
  | _ => false

def hasAnchor (t : Tree) (i : Nat) : Bool := ((t.kind? i).bind NodeKind.anchor).isSome

def hasTag (t : Tree) (i : Nat) : Bool := ((t.kind? i).bind NodeKind.tag).isSome

/-- Whether a collection is written on one line: everything inside a flow collection is,
and so is every empty collection. Other nodes are not collections. -/
def rendersInFlow (t : Tree) (i : Nat) (inFlow : Bool) : Bool :=
  match t.kind? i with
  | some (.mapping col) | some (.sequence col) =>
    inFlow || col.style == .flow || col.children.isEmpty
  | _ => false

/-- Whether a block collection's first line can start right after a `- ` bullet. -/
def continuesOnBulletLine (t : Tree) (i : Nat) : Bool :=
  !t.hasAnchor i && !t.hasTag i && !t.rendersInFlow i false &&
    ((t.kind? i).bind NodeKind.collection?).isSome

/-- Whether a mapping key needs a space before its `:`, as `*a : b` does. -/
def needsSpaceBeforeColon (t : Tree) (i : Nat) : Bool :=
  match t.kind? i with
  | some (.alias _) => true
  | _ => false

/-- Whether a mapping key has to be written in the explicit `? key` form: it spans lines,
is an empty plain scalar, or carries comments after it. -/
def needsExplicitKey (t : Tree) (c : Comments) (i : Nat) : Bool :=
  let multiLine := match t.kind? i with
    | some (.scalar s) => s.style.isBlock || (s.value.isEmpty && s.style == .plain)
    | some (.mapping _) | some (.sequence _) => !t.rendersInFlow i false
    | _ => false
  multiLine || !(c.trailing i).isEmpty || (c.lineEnd i).isSome

/-- An empty plain value with nothing attached, written as `{key}` in flow. -/
def isBareNull (t : Tree) (c : Comments) (i : Nat) : Bool :=
  match t.kind? i with
  | some (.scalar s) =>
    s.value.isEmpty && s.style == .plain && s.tag.isNone && s.anchor.isNone &&
      (c.get i).isEmpty
  | _ => false

end AnnotatedYaml.Tree
