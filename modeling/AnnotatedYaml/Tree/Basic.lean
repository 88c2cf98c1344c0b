import AnnotatedYaml.Error
import AnnotatedYaml.Style

/-! The node tree: an arena in which every node is numbered above its children. -/

namespace AnnotatedYaml

structure Scalar where
  value : String
  style : ScalarStyle := .plain
  /-- The tag in full, such as `tag:yaml.org,2002:str` or `!local`. -/
  tag : Option String := none
  anchor : Option String := none
  deriving Repr, BEq, Inhabited

/-- What mappings and sequences hold: children in order, for a mapping its keys and values
as `[k0, v0, k1, v1, ...]`. -/
structure Collection where
  children : List Nat
  style : CollectionStyle := .block
  tag : Option String := none
  anchor : Option String := none
  deriving Repr, BEq, Inhabited

/-- A `%TAG` directive: a handle and the text it stands for. -/
structure TagDirective where
  handle : String
  expansion : String
  deriving Repr, BEq, Inhabited

structure Document where
  root : Nat
  implicitStart : Bool := true
  implicitEnd : Bool := true
  tagDirectives : List TagDirective := []
  deriving Repr, BEq, Inhabited

inductive NodeKind where
  | scalar (s : Scalar)
  | alias (name : String)
  | mapping (c : Collection)
  | sequence (c : Collection)
  | document (d : Document)
  | stream (documents : List Nat)
  deriving Repr, BEq, Inhabited

namespace NodeKind

def name : NodeKind → String
  | .scalar _ => "scalar"
  | .alias _ => "alias"
  | .mapping _ => "mapping"
  | .sequence _ => "sequence"
  | .document _ => "document"
  | .stream _ => "stream"

/-- Direct children in document order; a document's only child is its root. -/
def children : NodeKind → List Nat
  | .scalar _ | .alias _ => []
  | .mapping c | .sequence c => c.children
  | .document d => [d.root]
  | .stream ds => ds

def anchor : NodeKind → Option String
  | .scalar s => s.anchor
  | .mapping c | .sequence c => c.anchor
  | _ => none

def tag : NodeKind → Option String
  | .scalar s => s.tag
  | .mapping c | .sequence c => c.tag
  | _ => none

def collection? : NodeKind → Option Collection
  | .mapping c | .sequence c => some c
  | _ => none

end NodeKind

structure Node where
  kind : NodeKind
  start : Position := Position.zero
  /-- Exclusive end. -/
  stop : Position := Position.zero
  deriving Repr, BEq, Inhabited

structure Tree where
  nodes : Array Node
  /-- Children are added before their parent. -/
  children_lt : ∀ (i : Nat) (h : i < nodes.size), ∀ c ∈ nodes[i].kind.children, c < i

namespace Tree

def empty : Tree := ⟨#[], fun _ h => absurd h (Nat.not_lt_zero _)⟩

instance : Inhabited Tree := ⟨empty⟩

def size (t : Tree) : Nat := t.nodes.size

def get? (t : Tree) (i : Nat) : Option Node := t.nodes[i]?

def kind? (t : Tree) (i : Nat) : Option NodeKind := (t.get? i).map (·.kind)

/-- The root is the node added last. -/
def root? (t : Tree) : Option Nat := if t.size = 0 then none else some (t.size - 1)

/-- The first child that names a node not yet added. -/
def missingChild? (t : Tree) (n : Node) : Option Nat :=
  n.kind.children.find? fun c => decide (c ≥ t.size)

theorem children_lt_of_missingChild (t : Tree) (n : Node) (h : t.missingChild? n = none) :
    ∀ c ∈ n.kind.children, c < t.size := by
  intro c hc
  have := List.find?_eq_none.mp h c hc
  simpa using this

/-- Adds a node after checking that its children exist, that a mapping pairs its children,
and that its span does not end before it starts. -/
def push (t : Tree) (n : Node) : Except Error (Nat × Tree) :=
  match h : t.missingChild? n with
  | some c => .error (.danglingChild c t.size)
  | none =>
    match n.kind with
    | .mapping m =>
      if m.children.length % 2 != 0 then .error (.oddMapping m.children.length)
      else if n.stop < n.start then .error (.invertedSpan t.size n.start n.stop)
      else .ok (t.size, ⟨t.nodes.push n, pushed t n (children_lt_of_missingChild t n h)⟩)
    | _ =>
      if n.stop < n.start then .error (.invertedSpan t.size n.start n.stop)
      else .ok (t.size, ⟨t.nodes.push n, pushed t n (children_lt_of_missingChild t n h)⟩)
where
  pushed (t : Tree) (n : Node) (hn : ∀ c ∈ n.kind.children, c < t.size) :
      ∀ (i : Nat) (h : i < (t.nodes.push n).size), ∀ c ∈ (t.nodes.push n)[i].kind.children,
        c < i := by
    intro i h c hc
    rw [Array.getElem_push] at hc
    split at hc
    · exact t.children_lt i _ c hc
    · have : i = t.nodes.size := by simp at h; omega
      subst this
      exact hn c hc

/-- The nodes reachable from `i` in pre-order; shared nodes come once per path. -/
def preorder (t : Tree) (i : Nat) : List Nat :=
  if h : i < t.nodes.size then
    i :: (t.nodes[i].kind.children.attach.flatMap fun ⟨c, hc⟩ =>
      have : c < i := t.children_lt i h c hc
      t.preorder c)
  else []
termination_by i

/-- The children of node `i`; none when `i` is not in the tree. -/
def childrenOf (t : Tree) (i : Nat) : List Nat := ((t.kind? i).map NodeKind.children).getD []

theorem childrenOf_of_lt {t : Tree} {i : Nat} (h : i < t.nodes.size) :
    t.childrenOf i = t.nodes[i].kind.children := by
  simp [childrenOf, kind?, get?, h]

theorem childrenOf_of_le {t : Tree} {i : Nat} (h : t.size ≤ i) : t.childrenOf i = [] := by
  have missing : t.nodes[i]? = none := Array.getElem?_eq_none h
  simp [childrenOf, kind?, get?, missing]

theorem lt_size_of_mem_childrenOf {t : Tree} {c i : Nat} (hc : c ∈ t.childrenOf i) :
    i < t.size := by
  by_cases inside : i < t.size
  · exact inside
  · rw [childrenOf_of_le (Nat.le_of_not_lt inside)] at hc
    cases hc

theorem lt_of_mem_childrenOf {t : Tree} {c i : Nat} (hc : c ∈ t.childrenOf i) : c < i := by
  have inside : i < t.nodes.size := lt_size_of_mem_childrenOf hc
  rw [childrenOf_of_lt inside] at hc
  exact t.children_lt i inside c hc

theorem lt_of_get?_children {t : Tree} {i j : Nat} {n : Node} (found : t.get? i = some n)
    (child : j ∈ n.kind.children) : j < i := by
  have inside : i < t.nodes.size := (Array.getElem?_eq_some_iff.mp found).1
  have same : t.nodes[i] = n := (Array.getElem?_eq_some_iff.mp found).2
  exact t.children_lt i inside j (same ▸ child)

theorem preorder_eq {t : Tree} (i : Nat) :
    t.preorder i = if i < t.size then i :: (t.childrenOf i).flatMap t.preorder else [] := by
  rw [preorder]
  by_cases inside : i < t.nodes.size
  · have inside' : i < t.size := inside
    rw [dif_pos inside, if_pos inside', childrenOf_of_lt inside]
    simp
  · have outside : ¬i < t.size := inside
    rw [dif_neg inside, if_neg outside]

/-- The numbers the walk writes for `i` on its stack: the pre-order below `i`, or `i` alone when
it names no node. -/
def pendingLength (t : Tree) (i : Nat) : Nat := max 1 (t.preorder i).length

/-- What the nodes of a stack stand for, added up. -/
def pendingTotal (t : Tree) : List Nat → Nat
  | [] => 0
  | i :: rest => t.pendingLength i + t.pendingTotal rest

theorem pendingTotal_append (t : Tree) (xs ys : List Nat) :
    t.pendingTotal (xs ++ ys) = t.pendingTotal xs + t.pendingTotal ys := by
  induction xs with
  | nil => rw [List.nil_append, pendingTotal, Nat.zero_add]
  | cons x xs ih => rw [List.cons_append, pendingTotal, pendingTotal, ih, Nat.add_assoc]

theorem pendingTotal_reverse (t : Tree) (xs : List Nat) :
    t.pendingTotal xs.reverse = t.pendingTotal xs := by
  induction xs with
  | nil => rfl
  | cons x xs ih =>
    rw [List.reverse_cons, pendingTotal_append, ih, pendingTotal, pendingTotal, pendingTotal]
    omega

/-- Nodes of the tree stand for their pre-orders. -/
theorem pendingTotal_of_lt (t : Tree) :
    ∀ xs : List Nat, (∀ c ∈ xs, c < t.size) → t.pendingTotal xs = (xs.flatMap t.preorder).length
  | [], _ => rfl
  | c :: rest, inside => by
    have here : c < t.size := inside c List.mem_cons_self
    rw [pendingTotal, List.flatMap_cons, List.length_append,
      pendingTotal_of_lt t rest fun c member => inside c (List.mem_cons_of_mem _ member),
      pendingLength, preorder_eq c, if_pos here, List.length_cons]
    omega

/-- A node stands for itself and what its children stand for. -/
theorem pendingTotal_children (t : Tree) (i : Nat) :
    t.pendingTotal (t.childrenOf i) < t.pendingLength i := by
  by_cases inside : i < t.size
  · rw [pendingTotal_of_lt t _ fun c member => Nat.lt_trans (lt_of_mem_childrenOf member) inside,
      pendingLength, preorder_eq i, if_pos inside, List.length_cons]
    omega
  · rw [childrenOf_of_le (Nat.le_of_not_lt inside), pendingTotal, pendingLength]
    omega

/-- The walk's loop: the node on top of the stack (its last element) is written and replaced by
its children, pushed last to first so that the first child is on top. A node may stand on the
stack once per parent; the loop ends because each round writes one of the numbers that the
stack stands for. -/
def walkFrom (t : Tree) (stack order : Array Nat) : Array Nat :=
  match _found : stack.back? with
  | none => order
  | some id => t.walkFrom (stack.pop ++ (t.childrenOf id).reverse.toArray) (order.push id)
termination_by t.pendingTotal stack.toList
decreasing_by
  obtain ⟨rest, rfl⟩ := Array.back?_eq_some_iff.mp _found
  have fewer := pendingTotal_children t id
  rw [Array.pop_push, Array.toList_append, Array.toList_push, List.toList_toArray,
    pendingTotal_append, pendingTotal_append, pendingTotal_reverse, pendingTotal, pendingTotal]
  omega

/-- Node numbers in document order, from a stack that holds the root. -/
def walk (t : Tree) : List Nat := (t.walkFrom t.root?.toArray #[]).toList

/-- Whether node `i` is a scalar with value `value`. -/
def isScalarWith (t : Tree) (i : Nat) (value : String) : Bool :=
  match t.kind? i with
  | some (.scalar s) => s.value == value
  | _ => false

/-- The first scalar in document order whose value is `value`. -/
def findScalar? (t : Tree) (value : String) : Option Nat := t.walk.find? (t.isScalarWith · value)

end Tree

end AnnotatedYaml
