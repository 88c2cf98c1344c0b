import Mathlib.Data.List.Nodup
import Mathlib.Data.List.Pairwise
import AnnotatedYaml.Layout.Classify
import AnnotatedYaml.Proofs.Tree.Walk

/-! The shape of the node arena: pre-orders, the trees that `push` builds, and when the walk meets
each node once. -/

namespace AnnotatedYaml.Tree

variable (t : Tree)

def slots : List Nat := (List.range t.size).flatMap t.childrenOf

/-- Each node fills at most one child slot of the arena: it is the child of at most one node,
and of that node only once. -/
def TreeShaped : Prop := t.slots.Nodup

instance : Decidable t.TreeShaped := inferInstanceAs (Decidable t.slots.Nodup)

/-- Every mapping pairs its children into keys and values. -/
def PairsChildren : Prop :=
  ∀ i col, t.kind? i = some (.mapping col) → col.children.length % 2 = 0

/-- The trees that `push` builds from the empty tree. Nodes are added by `push` only, so
these are all the trees the library hands out. -/
inductive Built : Tree → Prop
  | empty : Built Tree.empty
  | push {t t' : Tree} {n : Node} {i : Nat} : Built t → t.push n = .ok (i, t') → Built t'

/-- The nodes below `i` in pre-order, each with whether it stands inside a flow collection,
when `i` is met in the flow context `inFlow`. -/
def flowPreorder (i : Nat) (inFlow : Bool) : List (Nat × Bool) :=
  if h : i < t.nodes.size then
    (i, inFlow) :: (t.nodes[i].kind.children.attach.flatMap fun ⟨c, hc⟩ =>
      have : c < i := t.children_lt i h c hc
      flowPreorder c (t.rendersInFlow i inFlow || inFlow))
  else []
termination_by i

variable {t}

theorem lt_size_of_kind? {i : Nat} {k : NodeKind} (found : t.kind? i = some k) : i < t.size := by
  by_contra outside
  simp [kind?, get?, Array.getElem?_eq_none (Nat.le_of_not_lt outside)] at found

theorem exists_kind? {i : Nat} (inside : i < t.size) : ∃ k, t.kind? i = some k :=
  ⟨t.nodes[i].kind, by simp [kind?, get?, Array.getElem?_eq_getElem inside]⟩

theorem lt_size_of_mem_children {i j : Nat} {k : NodeKind} (found : t.kind? i = some k)
    (member : j ∈ k.children) : j < t.size := by
  have child : j ∈ t.childrenOf i := by simp [childrenOf, found, member]
  exact Nat.lt_trans (lt_of_mem_childrenOf child) (lt_size_of_kind? found)

/-- Pushes the nodes in order, stopping at the first one refused. -/
def pushAll (t : Tree) : List Node → Except Error Tree
  | [] => .ok t
  | n :: rest =>
    match t.push n with
    | .ok (_, t') => t'.pushAll rest
    | .error e => .error e

/-- What `push` can do: append the node under the next number, a mapping only when it pairs its
children, or refuse the node for a cause of its own, never with a panic. -/
theorem push_cases (n : Node) :
    (∃ t', t.push n = .ok (t.size, t') ∧ t'.nodes = t.nodes.push n ∧
      ∀ col, n.kind = .mapping col → col.children.length % 2 = 0) ∨
    ∃ e, t.push n = .error e ∧ e.isPanic = false := by
  unfold push
  split
  · exact .inr ⟨_, rfl, rfl⟩
  · split
    · rename_i m kind
      split
      · exact .inr ⟨_, rfl, rfl⟩
      · rename_i even
        split
        · exact .inr ⟨_, rfl, rfl⟩
        · refine .inl ⟨_, rfl, rfl, fun col same => ?_⟩
          rw [kind] at same
          cases same
          simpa using even
    · rename_i notMapping
      split
      · exact .inr ⟨_, rfl, rfl⟩
      · exact .inl ⟨_, rfl, rfl, fun col same => absurd same (notMapping col)⟩

theorem push_eq_ok {t' : Tree} {n : Node} {i : Nat} (pushed : t.push n = .ok (i, t')) :
    i = t.size ∧ t'.nodes = t.nodes.push n ∧
      ∀ col, n.kind = .mapping col → col.children.length % 2 = 0 := by
  rcases push_cases (t := t) n with ⟨appended, ok, nodes, paired⟩ | ⟨e, refused, _⟩
  · rw [ok] at pushed
    cases pushed
    exact ⟨rfl, nodes, paired⟩
  · rw [refused] at pushed
    cases pushed

theorem kind?_push {n : Node} (j : Nat) :
    (t.nodes.push n)[j]?.map Node.kind =
      if j < t.size then t.kind? j else if j = t.size then some n.kind else none := by
  rw [Array.getElem?_push]
  unfold kind? get? size
  split
  · rename_i same
    subst same
    simp
  · split
    · rfl
    · rename_i outside
      simp [Array.getElem?_eq_none (Nat.le_of_not_lt outside)]

theorem Built.pairsChildren {t : Tree} (built : t.Built) : t.PairsChildren := by
  induction built with
  | empty =>
    intro i col found
    simp [kind?, get?, Tree.empty] at found
  | @push t t' n _ _ pushed ih =>
    obtain ⟨-, nodes, even⟩ := push_eq_ok pushed
    intro j col found
    have found' : (t.nodes.push n)[j]?.map Node.kind = some (.mapping col) := by
      rw [← nodes]
      exact found
    rw [kind?_push] at found'
    split at found'
    · exact ih j col found'
    · split at found'
      · exact even col (Option.some.inj found')
      · cases found'

theorem root_eq {r : Nat} (root : t.root? = some r) : r + 1 = t.size := by
  unfold root? at root
  split at root
  · cases root
  · cases root
    omega

theorem Built.pushAll {t t' : Tree} {nodes : List Node} (built : t.Built)
    (pushed : t.pushAll nodes = .ok t') : t'.Built := by
  induction nodes generalizing t with
  | nil =>
    cases pushed
    exact built
  | cons n rest ih =>
    unfold Tree.pushAll at pushed
    split at pushed
    · rename_i i next step
      exact ih (Built.push built step) pushed
    · cases pushed

theorem flowPreorder_eq (i : Nat) (inFlow : Bool) :
    t.flowPreorder i inFlow = if i < t.size then
      (i, inFlow) :: (t.childrenOf i).flatMap
        (t.flowPreorder · (t.rendersInFlow i inFlow || inFlow))
    else [] := by
  rw [flowPreorder]
  by_cases inside : i < t.nodes.size
  · have inside' : i < t.size := inside
    rw [dif_pos inside, if_pos inside', childrenOf_of_lt inside]
    simp
  · have outside : ¬i < t.size := inside
    rw [dif_neg inside, if_neg outside]

theorem map_fst_flowPreorder (i : Nat) (inFlow : Bool) :
    (t.flowPreorder i inFlow).map Prod.fst = t.preorder i := by
  induction i using Nat.strongRecOn generalizing inFlow with
  | ind i ih =>
    rw [flowPreorder_eq, preorder_eq]
    split
    · simp only [List.map_cons, List.map_flatMap, List.cons.injEq, true_and]
      apply List.flatMap_congr
      intro c hc
      exact ih c (lt_of_mem_childrenOf hc) _
    · rfl

theorem mem_preorder_self {i : Nat} (h : i < t.size) : i ∈ t.preorder i := by
  rw [preorder_eq, if_pos h]
  exact List.mem_cons_self

theorem le_of_mem_preorder {y i : Nat} (hy : y ∈ t.preorder i) : y ≤ i := by
  induction i using Nat.strongRecOn with
  | ind i ih =>
    rw [preorder_eq] at hy
    split at hy
    · rcases List.mem_cons.mp hy with rfl | below
      · exact Nat.le_refl y
      · obtain ⟨c, hc, hyc⟩ := List.mem_flatMap.mp below
        have lower := lt_of_mem_childrenOf hc
        exact Nat.le_of_lt (Nat.lt_of_le_of_lt (ih c lower hyc) lower)
    · cases hy

theorem lt_size_of_mem_preorder {y i : Nat} (hy : y ∈ t.preorder i) : y < t.size := by
  have below := le_of_mem_preorder hy
  rw [preorder_eq] at hy
  split at hy
  · rename_i inside
    exact Nat.lt_of_le_of_lt below inside
  · cases hy

theorem preorder_subset_of_child {c i : Nat} (hc : c ∈ t.childrenOf i) :
    ∀ y ∈ t.preorder c, y ∈ t.preorder i := by
  intro y hy
  rw [preorder_eq i, if_pos (lt_size_of_mem_childrenOf hc)]
  exact List.mem_cons_of_mem _ (List.mem_flatMap.mpr ⟨c, hc, hy⟩)

theorem mem_preorder_trans {y x z : Nat} (hy : y ∈ t.preorder x) (hx : x ∈ t.preorder z) :
    y ∈ t.preorder z := by
  induction z using Nat.strongRecOn with
  | ind z ih =>
    rw [preorder_eq] at hx
    split at hx
    · rcases List.mem_cons.mp hx with rfl | below
      · exact hy
      · obtain ⟨c, hc, hxc⟩ := List.mem_flatMap.mp below
        exact preorder_subset_of_child hc y (ih c (lt_of_mem_childrenOf hc) hxc)
    · cases hx

theorem exists_parent_of_mem_preorder {y x : Nat} (hy : y ∈ t.preorder x) (ne : y ≠ x) :
    ∃ p ∈ t.preorder x, y ∈ t.childrenOf p := by
  induction x using Nat.strongRecOn with
  | ind x ih =>
    rw [preorder_eq] at hy
    split at hy
    · rename_i inside
      rcases List.mem_cons.mp hy with same | below
      · exact absurd same ne
      · obtain ⟨c, hc, hyc⟩ := List.mem_flatMap.mp below
        by_cases top : y = c
        · subst top
          exact ⟨x, mem_preorder_self inside, hc⟩
        · obtain ⟨p, hp, hyp⟩ := ih c (lt_of_mem_childrenOf hc) hyc top
          exact ⟨p, preorder_subset_of_child hc p hp, hyp⟩
    · cases hy

namespace TreeShaped

variable (shaped : t.TreeShaped)
include shaped

theorem childrenOf_nodup (i : Nat) : (t.childrenOf i).Nodup := by
  by_cases inside : i < t.size
  · exact (List.nodup_flatMap.mp shaped).1 i (List.mem_range.mpr inside)
  · rw [childrenOf_of_le (Nat.le_of_not_lt inside)]
    exact List.nodup_nil

theorem parent_unique {c p q : Nat} (hp : c ∈ t.childrenOf p) (hq : c ∈ t.childrenOf q) :
    p = q := by
  by_contra ne
  have : Std.Symm (Function.onFun List.Disjoint t.childrenOf) :=
    ⟨fun _ _ apart => List.disjoint_symm apart⟩
  have apart := (List.nodup_flatMap.mp shaped).2.forall
    (List.mem_range.mpr (lt_size_of_mem_childrenOf hp))
    (List.mem_range.mpr (lt_size_of_mem_childrenOf hq)) ne
  exact apart hp hq

theorem preorder_disjoint {x c d : Nat} (hc : c ∈ t.childrenOf x) (hd : d ∈ t.childrenOf x)
    (ne : c ≠ d) : ∀ y ∈ t.preorder c, y ∉ t.preorder d := by
  -- Upward induction: a node met below both children has its one parent below both too.
  have upward : ∀ k y, t.size ≤ y + k → y ∈ t.preorder c → y ∉ t.preorder d := by
    intro k
    induction k with
    | zero =>
      intro y high hyc
      have := lt_size_of_mem_preorder hyc
      omega
    | succ k ih =>
      intro y high hyc hyd
      by_cases top : y = c
      · subst top
        obtain ⟨p, hp, hcp⟩ := exists_parent_of_mem_preorder hyd ne
        have same : x = p := shaped.parent_unique hc hcp
        subst same
        have := le_of_mem_preorder hp
        have := lt_of_mem_childrenOf hd
        omega
      by_cases top' : y = d
      · subst top'
        obtain ⟨p, hp, hdp⟩ := exists_parent_of_mem_preorder hyc (Ne.symm ne)
        have same : x = p := shaped.parent_unique hd hdp
        subst same
        have := le_of_mem_preorder hp
        have := lt_of_mem_childrenOf hc
        omega
      obtain ⟨p, hpc, hyp⟩ := exists_parent_of_mem_preorder hyc top
      obtain ⟨q, hqd, hyq⟩ := exists_parent_of_mem_preorder hyd top'
      have same : p = q := shaped.parent_unique hyp hyq
      subst same
      have := lt_of_mem_childrenOf hyp
      exact ih p (by omega) hpc hqd
  intro y hyc
  exact upward t.size y (Nat.le_add_left _ _) hyc

/-- The pre-order below a node meets each node once. -/
theorem preorder_nodup (i : Nat) : (t.preorder i).Nodup := by
  induction i using Nat.strongRecOn with
  | ind i ih =>
    rw [preorder_eq]
    split
    · refine List.nodup_cons.mpr ⟨?_, ?_⟩
      · intro member
        obtain ⟨c, hc, hic⟩ := List.mem_flatMap.mp member
        have := le_of_mem_preorder hic
        have := lt_of_mem_childrenOf hc
        omega
      · refine List.nodup_flatMap.mpr ⟨fun c hc => ih c (lt_of_mem_childrenOf hc), ?_⟩
        refine (shaped.childrenOf_nodup i).pairwise_of_forall_ne ?_
        intro c hc d hd ne y hyc hyd
        exact shaped.preorder_disjoint hc hd ne y hyc hyd
    · exact List.nodup_nil

theorem walk_nodup : t.walk.Nodup := by
  rw [walk_eq_preorder]
  cases t.root? with
  | some r => exact shaped.preorder_nodup r
  | none => exact List.nodup_nil

theorem flatMap_childrenOf_nodup {α : Type} {parents : List α} (key : α → Nat)
    (distinct : (parents.map key).Nodup) (keep : α → Bool) :
    (parents.flatMap fun p => if keep p then t.childrenOf (key p) else []).Nodup := by
  refine List.nodup_flatMap.mpr ⟨?_, ?_⟩
  · intro p _
    split
    · exact shaped.childrenOf_nodup (key p)
    · exact List.nodup_nil
  · refine (List.pairwise_map.mp distinct).imp ?_
    intro p q ne c hcp hcq
    dsimp only at hcp hcq
    split at hcp
    · split at hcq
      · exact ne (shaped.parent_unique hcp hcq)
      · cases hcq
    · cases hcp

end TreeShaped

end AnnotatedYaml.Tree
