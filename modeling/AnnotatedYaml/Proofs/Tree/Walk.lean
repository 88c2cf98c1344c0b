import Mathlib.Data.List.Basic
import AnnotatedYaml.Tree.Basic

/-! The walk over the arena with an explicit stack is the pre-order from the root. -/

namespace AnnotatedYaml.Tree

variable {t : Tree}

theorem walkFrom_of_back?_none {stack : Array Nat} (order : Array Nat) (empty : stack.back? = none) :
    t.walkFrom stack order = order := by
  rw [walkFrom]
  split
  · rfl
  · rename_i id found
    rw [empty] at found
    cases found

theorem walkFrom_push (rest order : Array Nat) (id : Nat) :
    t.walkFrom (rest.push id) order =
      t.walkFrom (rest ++ (t.childrenOf id).reverse.toArray) (order.push id) := by
  rw [walkFrom]
  split
  · rename_i found
    simp at found
  · rename_i top found
    rw [Array.back?_push, Option.some_inj] at found
    subst found
    rw [Array.pop_push]

/-- The loop invariant: read from the top, the stack is what remains of the pre-order, so the
walk writes the pre-orders of the stacked nodes one after the other, the top one first. -/
theorem walkFrom_toList (stack order : Array Nat) (inside : ∀ i ∈ stack, i < t.size) :
    (t.walkFrom stack order).toList =
      order.toList ++ stack.toList.reverse.flatMap t.preorder := by
  induction stack, order using walkFrom.induct (t := t) with
  | case1 stack order empty =>
    rw [walkFrom_of_back?_none order empty, Array.back?_eq_none_iff.mp empty]
    simp
  | case2 stack order id found ih =>
    obtain ⟨rest, rfl⟩ := Array.back?_eq_some_iff.mp found
    have top : id < t.size := inside id (by simp)
    -- the children stand on the stack in the top node's place, and are nodes of the arena
    have below : ∀ i ∈ rest ++ (t.childrenOf id).reverse.toArray, i < t.size := by
      intro i member
      rcases Array.mem_append.mp member with old | child
      · exact inside i (Array.mem_push_of_mem id old)
      · have := lt_of_mem_childrenOf (by simpa using child)
        omega
    have rest_written := ih (by simpa using below)
    rw [Array.pop_push] at rest_written
    rw [walkFrom_push, rest_written]
    simp only [Array.toList_push, List.reverse_append, List.reverse_singleton,
      List.singleton_append, List.flatMap_cons]
    rw [preorder_eq id, if_pos top]
    simp

/-- The walk is the pre-order from the root; the empty tree has none. -/
theorem walk_eq_preorder : t.walk = (t.root?.map t.preorder).getD [] := by
  unfold walk
  cases root : t.root? with
  | none => simp [walkFrom_of_back?_none]
  | some r =>
    have inside : r < t.size := by
      unfold root? at root
      split at root
      · cases root
      · cases root
        omega
    simpa using walkFrom_toList #[r] #[] (by simpa using inside)

variable (t) in
def HoldsScalar (i : Nat) (value : String) : Prop :=
  ∃ s, t.kind? i = some (.scalar s) ∧ s.value = value

theorem isScalarWith_iff {i : Nat} {value : String} :
    t.isScalarWith i value = true ↔ t.HoldsScalar i value := by
  unfold isScalarWith HoldsScalar
  split
  · rename_i s found
    simp [found]
  · rename_i notScalar
    simp only [Bool.false_eq_true, false_iff, not_exists, not_and]
    intro s found
    exact absurd found (notScalar s)

theorem isScalarWith_eq_false_iff {i : Nat} {value : String} :
    t.isScalarWith i value = false ↔ ¬t.HoldsScalar i value := by
  rw [← isScalarWith_iff, Bool.not_eq_true]

/-- The scalar search answers `i` exactly when `i` is a scalar with the value and no node before
it in the walk is. -/
theorem findScalar?_eq_some_iff {value : String} {i : Nat} :
    t.findScalar? value = some i ↔
      ∃ before after, t.walk = before ++ i :: after ∧ t.HoldsScalar i value ∧
        ∀ j ∈ before, ¬t.HoldsScalar j value := by
  unfold findScalar?
  simp only [List.find?_eq_some_iff_append, isScalarWith_iff, Bool.not_eq_eq_eq_not,
    Bool.not_true, isScalarWith_eq_false_iff]
  constructor
  · rintro ⟨holds, before, after, whole, others⟩
    exact ⟨before, after, whole, holds, others⟩
  · rintro ⟨before, after, whole, holds, others⟩
    exact ⟨holds, before, after, whole, others⟩

theorem findScalar?_eq_none_iff {value : String} :
    t.findScalar? value = none ↔ ∀ j ∈ t.walk, ¬t.HoldsScalar j value := by
  unfold findScalar?
  simp only [List.find?_eq_none, Bool.not_eq_true, isScalarWith_eq_false_iff]

/-- The walk is the recursive pre-order from the root, the empty tree giving none, and the
scalar search answers the first node of that pre-order that is a scalar with the value, and
nothing when there is none. -/
theorem walk_is_preorder_from_root (t : Tree) (value : String) :
    t.walk = (t.root?.map t.preorder).getD [] ∧
    (∀ i, t.findScalar? value = some i ↔
      ∃ before after, (t.root?.map t.preorder).getD [] = before ++ i :: after ∧
        t.HoldsScalar i value ∧ ∀ j ∈ before, ¬t.HoldsScalar j value) ∧
    (t.findScalar? value = none ↔
      ∀ j ∈ (t.root?.map t.preorder).getD [], ¬t.HoldsScalar j value) := by
  refine ⟨walk_eq_preorder, fun i => ?_, ?_⟩
  · rw [findScalar?_eq_some_iff, walk_eq_preorder]
  · rw [findScalar?_eq_none_iff, walk_eq_preorder]

end AnnotatedYaml.Tree
