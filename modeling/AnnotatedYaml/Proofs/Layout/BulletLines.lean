import AnnotatedYaml.Proofs.Layout.Claims

/-! The bullet pre-pass claims the nodes on the line of each `- ` bullet and hoists their leading
comments in front of it once. -/

namespace AnnotatedYaml

namespace Tree

variable (t : Tree)

def isMapping (i : Nat) : Bool :=
  match t.kind? i with
  | some (.mapping _) => true
  | _ => false

/-- The nodes that start on the line of a bullet written before node `i`, top down. -/
def bulletSpine (i : Nat) : List Nat :=
  i :: if t.continuesOnBulletLine i then
    match h : t.childrenOf i with
    | [] => []
    | first :: _ =>
      if t.isMapping i then [first]
      else
        have : first < i := lt_of_mem_childrenOf (h ▸ List.mem_cons_self)
        bulletSpine first
  else []
termination_by i

/-- The items written after `- ` bullets when the whole tree is written, in the order the walk
from the root meets them. -/
def walkBulletItems : List Nat := (t.root?.map (t.bulletItems · false)).getD []

/-- The first of the items `done` whose spine holds node `y`. -/
def spineOwner? (done : List Nat) (y : Nat) : Option Nat :=
  done.find? fun i => decide (y ∈ t.bulletSpine i)

variable {t}

theorem bulletSpine_of_stops {i : Nat} (stops : t.continuesOnBulletLine i = false) :
    t.bulletSpine i = [i] := by
  rw [bulletSpine, stops]
  rfl

theorem bulletSpine_of_mapping {i first : Nat} {rest : List Nat}
    (continues : t.continuesOnBulletLine i = true) (kids : t.childrenOf i = first :: rest)
    (mapping : t.isMapping i = true) : t.bulletSpine i = [i, first] := by
  rw [bulletSpine, if_pos continues]
  split
  · rename_i none
    rw [kids] at none
    cases none
  · rename_i f r same
    rw [kids] at same
    cases same
    simp [mapping]

theorem bulletSpine_of_sequence {i first : Nat} {rest : List Nat}
    (continues : t.continuesOnBulletLine i = true) (kids : t.childrenOf i = first :: rest)
    (notMapping : t.isMapping i = false) : t.bulletSpine i = i :: t.bulletSpine first := by
  rw [bulletSpine, if_pos continues]
  split
  · rename_i none
    rw [kids] at none
    cases none
  · rename_i f r same
    rw [kids] at same
    cases same
    simp [notMapping]

theorem exists_first_of_continues {i : Nat} (continues : t.continuesOnBulletLine i = true) :
    ∃ first rest, t.childrenOf i = first :: rest := by
  unfold continuesOnBulletLine rendersInFlow at continues
  cases found : t.kind? i with
  | none => simp [found] at continues
  | some k =>
    have kids : t.childrenOf i = k.children := by simp [childrenOf, found]
    have nonempty : k.children ≠ [] := by
      cases k <;> simp_all [NodeKind.collection?, NodeKind.children]
    rw [kids]
    exact List.exists_cons_of_ne_nil nonempty

theorem bulletSpine_cases (i : Nat) :
    t.bulletSpine i = [i] ∨
      ∃ first rest, t.childrenOf i = first :: rest ∧
        (t.bulletSpine i = [i, first] ∧ t.isMapping i = true ∨
          t.bulletSpine i = i :: t.bulletSpine first ∧ t.isMapping i = false) := by
  cases continues : t.continuesOnBulletLine i
  · exact .inl (bulletSpine_of_stops continues)
  · obtain ⟨first, rest, kids⟩ := exists_first_of_continues continues
    refine .inr ⟨first, rest, kids, ?_⟩
    cases mapping : t.isMapping i
    · exact .inr ⟨bulletSpine_of_sequence continues kids mapping, rfl⟩
    · exact .inl ⟨bulletSpine_of_mapping continues kids mapping, rfl⟩

theorem mem_bulletSpine_self (i : Nat) : i ∈ t.bulletSpine i := by
  rw [bulletSpine]
  exact List.mem_cons_self

theorem exists_parent_of_mem_bulletSpine {y i : Nat} (member : y ∈ t.bulletSpine i)
    (ne : y ≠ i) : ∃ p ∈ t.bulletSpine i, y ∈ t.childrenOf p := by
  induction i using Nat.strongRecOn with
  | ind i ih =>
  rcases t.bulletSpine_cases i with spine | ⟨first, rest, kids, ⟨spine, -⟩ | ⟨spine, -⟩⟩
  · rw [spine, List.mem_singleton] at member
    exact absurd member ne
  · have child : first ∈ t.childrenOf i := kids ▸ List.mem_cons_self
    rw [spine] at member ⊢
    simp only [List.mem_cons, List.not_mem_nil, or_false] at member
    rcases member with same | same
    · exact absurd same ne
    · exact ⟨i, List.mem_cons_self, same ▸ child⟩
  · have child : first ∈ t.childrenOf i := kids ▸ List.mem_cons_self
    rw [spine] at member ⊢
    rcases List.mem_cons.mp member with same | deeper
    · exact absurd same ne
    by_cases top : y = first
    · exact ⟨i, List.mem_cons_self, top ▸ child⟩
    · obtain ⟨p, onSpine, parent⟩ := ih first (lt_of_mem_childrenOf child) deeper top
      exact ⟨p, List.mem_cons_of_mem i onSpine, parent⟩

theorem le_of_mem_bulletSpine {y i : Nat} (member : y ∈ t.bulletSpine i) : y ≤ i := by
  induction i using Nat.strongRecOn with
  | ind i ih =>
  by_cases top : y = i
  · exact Nat.le_of_eq top
  obtain ⟨p, onSpine, parent⟩ := exists_parent_of_mem_bulletSpine member top
  by_cases atTop : p = i
  · exact Nat.le_of_lt (atTop ▸ lt_of_mem_childrenOf parent)
  · -- the parent lies on the spine below its top, so its own parent does too
    rcases t.bulletSpine_cases i with spine | ⟨first, rest, kids, ⟨spine, -⟩ | ⟨spine, -⟩⟩
    · rw [spine, List.mem_singleton] at onSpine
      exact absurd onSpine atTop
    · have child : first ∈ t.childrenOf i := kids ▸ List.mem_cons_self
      rw [spine] at member
      simp only [List.mem_cons, List.not_mem_nil, or_false] at member
      rcases member with same | same
      · exact absurd same top
      · exact Nat.le_of_lt (same ▸ lt_of_mem_childrenOf child)
    · have child : first ∈ t.childrenOf i := kids ▸ List.mem_cons_self
      rw [spine] at member
      rcases List.mem_cons.mp member with same | deeper
      · exact absurd same top
      · exact Nat.le_of_lt (Nat.lt_of_le_of_lt (ih first (lt_of_mem_childrenOf child) deeper)
          (lt_of_mem_childrenOf child))

theorem bulletSpine_subset_preorder {i : Nat} (inside : i < t.size) :
    ∀ y ∈ t.bulletSpine i, y ∈ t.preorder i := by
  induction i using Nat.strongRecOn with
  | ind i ih =>
  intro y member
  by_cases top : y = i
  · rw [top]
    exact mem_preorder_self inside
  rcases t.bulletSpine_cases i with spine | ⟨first, rest, kids, ⟨spine, -⟩ | ⟨spine, -⟩⟩
  · rw [spine, List.mem_singleton] at member
    exact absurd member top
  · have child : first ∈ t.childrenOf i := kids ▸ List.mem_cons_self
    rw [spine] at member
    simp only [List.mem_cons, List.not_mem_nil, or_false] at member
    rcases member with same | same
    · exact absurd same top
    · rw [same]
      exact preorder_subset_of_child child first
        (mem_preorder_self (Nat.lt_trans (lt_of_mem_childrenOf child) inside))
  · have child : first ∈ t.childrenOf i := kids ▸ List.mem_cons_self
    have below := lt_of_mem_childrenOf child
    rw [spine] at member
    rcases List.mem_cons.mp member with same | deeper
    · exact absurd same top
    · exact preorder_subset_of_child child y (ih first below (by omega) y deeper)

theorem bulletItem_facts {item : Nat} (member : item ∈ t.walkBulletItems) :
    item < t.size ∧ ∃ p, item ∈ t.childrenOf p ∧ t.isMapping p = false := by
  unfold walkBulletItems at member
  cases root : t.root? with
  | none => simp [root] at member
  | some r =>
    rw [root, Option.map_some, Option.getD_some] at member
    obtain ⟨p, -, child, bullets⟩ := exists_parent_of_mem_bulletItems member
    refine ⟨Nat.lt_trans (lt_of_mem_childrenOf child) (lt_size_of_mem_childrenOf child),
      p, child, ?_⟩
    unfold hasBullets at bullets
    unfold isMapping
    split at bullets
    · rename_i col found
      rw [found]
    · cases bullets

namespace TreeShaped

variable (shaped : t.TreeShaped)
include shaped

theorem bulletSpine_nested {y i j : Nat} (onI : y ∈ t.bulletSpine i) (onJ : y ∈ t.bulletSpine j) :
    i ∈ t.bulletSpine j ∨ j ∈ t.bulletSpine i := by
  -- Upward induction: below both tops, the one parent of `y` lies on both spines.
  have upward : ∀ k y, t.size ≤ y + k → y ∈ t.bulletSpine i → y ∈ t.bulletSpine j →
      i ∈ t.bulletSpine j ∨ j ∈ t.bulletSpine i := by
    intro k
    induction k with
    | zero =>
      intro y high onI onJ
      by_cases top : y = i
      · exact .inl (top ▸ onJ)
      obtain ⟨p, -, parent⟩ := exists_parent_of_mem_bulletSpine onI top
      have := lt_of_mem_childrenOf parent
      have := lt_size_of_mem_childrenOf parent
      omega
    | succ k ih =>
      intro y high onI onJ
      by_cases top : y = i
      · exact .inl (top ▸ onJ)
      by_cases top' : y = j
      · exact .inr (top' ▸ onI)
      obtain ⟨p, pOnI, parent⟩ := exists_parent_of_mem_bulletSpine onI top
      obtain ⟨q, qOnJ, parent'⟩ := exists_parent_of_mem_bulletSpine onJ top'
      have same : p = q := shaped.parent_unique parent parent'
      subst same
      have := lt_of_mem_childrenOf parent
      exact ih p (by omega) pOnI qOnJ
  exact upward t.size y (Nat.le_add_left _ _) onI onJ

theorem bulletSpine_subset {z i p : Nat} (onSpine : z ∈ t.bulletSpine i)
    (child : z ∈ t.childrenOf p) (notMapping : t.isMapping p = false) :
    ∀ y ∈ t.bulletSpine z, y ∈ t.bulletSpine i := by
  induction i using Nat.strongRecOn with
  | ind i ih =>
  by_cases top : z = i
  · exact fun y member => top ▸ member
  rcases t.bulletSpine_cases i with spine | ⟨first, rest, kids, ⟨spine, mapping⟩ | ⟨spine, -⟩⟩
  · rw [spine, List.mem_singleton] at onSpine
    exact absurd onSpine top
  · -- the first key of a mapping is no item of a sequence
    have key : first ∈ t.childrenOf i := kids ▸ List.mem_cons_self
    rw [spine] at onSpine
    simp only [List.mem_cons, List.not_mem_nil, or_false] at onSpine
    rcases onSpine with same | same
    · exact absurd same top
    · subst same
      rw [shaped.parent_unique key child, notMapping] at mapping
      cases mapping
  · have item : first ∈ t.childrenOf i := kids ▸ List.mem_cons_self
    rw [spine] at onSpine
    rcases List.mem_cons.mp onSpine with same | deeper
    · exact absurd same top
    · intro y member
      rw [spine]
      exact List.mem_cons_of_mem i (ih first (lt_of_mem_childrenOf item) deeper y member)

theorem preorder_pairwise (i : Nat) : (t.preorder i).Pairwise fun a b => a ∉ t.preorder b := by
  induction i using Nat.strongRecOn with
  | ind i ih =>
  rw [preorder_eq]
  split
  · refine List.pairwise_cons.mpr ⟨?_, ?_⟩
    · intro b member below
      obtain ⟨c, child, hb⟩ := List.mem_flatMap.mp member
      have := le_of_mem_preorder below
      have := le_of_mem_preorder hb
      have := lt_of_mem_childrenOf child
      omega
    · refine List.pairwise_flatMap.mpr ⟨fun c child => ih c (lt_of_mem_childrenOf child), ?_⟩
      refine (shaped.childrenOf_nodup i).pairwise_of_forall_ne ?_
      -- below two different children lie different nodes
      intro c hc d hd ne x hx y hy below
      exact shaped.preorder_disjoint hc hd ne x hx (mem_preorder_trans below hy)
  · exact List.Pairwise.nil

theorem bulletItems_pairwise (i : Nat) (inFlow : Bool) :
    (t.bulletItems i inFlow).Pairwise fun a b => a ∉ t.bulletSpine b := by
  -- A node on the spine of a child of `q`, and a child of `p`, has its one parent below `q`.
  have parentBelow : ∀ {a b p q : Nat}, a ∈ t.childrenOf p → b ∈ t.childrenOf q →
      a ∈ t.bulletSpine b → p ∈ t.preorder q := by
    intro a b p q ha hb onSpine
    have inside : b < t.size := Nat.lt_trans (lt_of_mem_childrenOf hb) (lt_size_of_mem_childrenOf hb)
    have below := preorder_subset_of_child hb a (bulletSpine_subset_preorder inside a onSpine)
    have ne : a ≠ q := by
      have := le_of_mem_bulletSpine onSpine
      have := lt_of_mem_childrenOf hb
      omega
    obtain ⟨p', hp', parent⟩ := exists_parent_of_mem_preorder below ne
    exact shaped.parent_unique ha parent ▸ hp'
  unfold bulletItems
  refine List.pairwise_flatMap.mpr ⟨?_, ?_⟩
  · rintro ⟨y, f⟩ _
    dsimp only
    split
    · refine (shaped.childrenOf_nodup y).pairwise_of_forall_ne ?_
      intro a ha b hb ne onSpine
      have inside : b < t.size :=
        Nat.lt_trans (lt_of_mem_childrenOf hb) (lt_size_of_mem_childrenOf hb)
      exact shaped.preorder_disjoint ha hb ne a (mem_preorder_self
        (Nat.lt_trans (lt_of_mem_childrenOf ha) (lt_size_of_mem_childrenOf ha)))
        (bulletSpine_subset_preorder inside a onSpine)
    · exact List.Pairwise.nil
  · have ordered := shaped.preorder_pairwise i
    rw [← map_fst_flowPreorder i inFlow, List.pairwise_map] at ordered
    refine ordered.imp ?_
    rintro ⟨p, f⟩ ⟨q, g⟩ apart a ha b hb onSpine
    dsimp only at apart ha hb
    split at ha
    · split at hb
      · exact apart (parentBelow ha hb onSpine)
      · cases hb
    · cases ha

end TreeShaped

end Tree

namespace BulletClaims

variable {t : Tree} {c : Comments}

theorem go_of_claimed {fuel cur : Nat} {b : BulletClaims} (acc : List Nat)
    (claimed : b.isClaimed cur = true) : claimSpine.go t c fuel cur b acc = (b, acc) := by
  cases fuel with
  | zero => rfl
  | succ fuel => rw [claimSpine.go, if_pos claimed]

/-- With enough fuel, the walk from a node whose spine is unclaimed claims the whole spine and
collects the nodes of it that have leading comments. -/
theorem go_walks_spine {fuel cur : Nat} {b : BulletClaims} (acc : List Nat) (enough : cur < fuel)
    (inside : cur < t.size) (sized : b.claimed.size = t.size)
    (unclaimed : ∀ y ∈ t.bulletSpine cur, b.isClaimed y = false) :
    Extends b (claimSpine.go t c fuel cur b acc).1 (t.bulletSpine cur) ∧
      (claimSpine.go t c fuel cur b acc).2 = acc ++ (t.bulletSpine cur).filter (hasLeading c) := by
  induction fuel generalizing cur b acc with
  | zero => omega
  | succ fuel ih =>
    have insideB : cur < b.claimed.size := sized ▸ inside
    rw [claimSpine.go, if_neg (by simp [unclaimed cur (Tree.mem_bulletSpine_self cur)])]
    dsimp only
    rw [check_of_lt _ inside]
    split
    · rename_i stops
      rw [Tree.bulletSpine_of_stops (by simpa using stops)]
      exact ⟨Extends.claim insideB (unclaimed cur (Tree.mem_bulletSpine_self cur))
        (Extends.refl _), push_if_leading acc cur⟩
    rename_i continues
    have continues : t.continuesOnBulletLine cur = true := by simpa using continues
    obtain ⟨first, rest, kids⟩ := Tree.exists_first_of_continues continues
    have child : first ∈ t.childrenOf cur := kids ▸ List.mem_cons_self
    have below : first < cur := Tree.lt_of_mem_childrenOf child
    split
    · rename_i none
      rw [Tree.childrenOf, none] at kids
      cases kids
    rename_i k found
    have children : k.children = first :: rest := by simpa [Tree.childrenOf, found] using kids
    rw [children]
    dsimp only
    split
    · -- a mapping: its first key is claimed too, and the walk stops there
      rename_i col
      have spine := Tree.bulletSpine_of_mapping continues kids (by simp [Tree.isMapping, found])
      have keyFresh : (b.claim cur).isClaimed first = false := by
        have key := unclaimed first (by simp [spine])
        cases claimed : (b.claim cur).isClaimed first
        · rfl
        · rcases (isClaimed_claim insideB first).mp claimed with same | old
          · omega
          · rw [key] at old
            cases old
      rw [if_neg (by simp [keyFresh]), spine]
      refine ⟨Extends.claim insideB (unclaimed cur (by simp [spine]))
        (Extends.claim (by simpa [sized] using Nat.lt_trans below inside) keyFresh
          (Extends.refl _)), ?_⟩
      rw [push_if_leading, push_if_leading]
      by_cases lead : hasLeading c cur = true <;> simp [List.filter_cons, lead]
    · -- a sequence: the walk goes on along its first item's spine
      rename_i notMapping
      have mapping : t.isMapping cur = false := by
        unfold Tree.isMapping
        rw [found]
        split
        · rename_i col same
          cases same
          exact absurd rfl (notMapping col)
        · rfl
      have spine := Tree.bulletSpine_of_sequence continues kids mapping
      have freshBelow : ∀ y ∈ t.bulletSpine first, (b.claim cur).isClaimed y = false := by
        intro y member
        have low := Tree.le_of_mem_bulletSpine member
        cases claimed : (b.claim cur).isClaimed y
        · rfl
        · rcases (isClaimed_claim insideB y).mp claimed with same | old
          · omega
          · rw [unclaimed y (by rw [spine]; exact List.mem_cons_of_mem cur member)] at old
            cases old
      obtain ⟨grows, collected⟩ := ih _ (by omega) (Nat.lt_trans below inside)
        (by rw [claim_size, sized]) freshBelow
      rw [spine]
      refine ⟨Extends.claim insideB (unclaimed cur (by simp [spine])) grows, ?_⟩
      rw [collected, push_if_leading]
      by_cases lead : hasLeading c cur = true <;> simp [lead]

theorem claimSpine_of_claimed {b : BulletClaims} {item : Nat} (inside : item < b.hoisted.size)
    (claimed : b.isClaimed item = true) :
    claimSpine t c item b = { b with hoisted := b.hoisted.set! item [] } := by
  unfold claimSpine
  rw [go_of_claimed [] claimed]
  dsimp only
  rw [check_of_lt _ inside]

theorem claimSpine_of_unclaimed {b : BulletClaims} {item : Nat} (inside : item < t.size)
    (sized : b.claimed.size = t.size) (insideHoisted : item < b.hoisted.size)
    (unclaimed : ∀ y ∈ t.bulletSpine item, b.isClaimed y = false) :
    ∃ b', Extends b b' (t.bulletSpine item) ∧
      claimSpine t c item b =
        { b' with hoisted := b'.hoisted.set! item ((t.bulletSpine item).filter (hasLeading c)) } := by
  obtain ⟨grows, collected⟩ := go_walks_spine (c := c) []
    (Nat.lt_succ_of_lt inside : item < t.size + 1) inside sized unclaimed
  unfold claimSpine
  generalize claimSpine.go t c (t.size + 1) item b [] = walked at grows collected
  obtain ⟨b', acc⟩ := walked
  dsimp only at grows collected ⊢
  rw [collected, List.nil_append, check_of_lt _ (grows.hoisted_eq ▸ insideHoisted)]
  exact ⟨b', grows, rfl⟩

/-- The pre-pass after it has handled the items `done` in order: it has claimed their spines,
and each of them hoists the nodes of its spine with leading comments that no earlier item's
spine holds. -/
structure Owns (t : Tree) (c : Comments) (b : BulletClaims) (done : List Nat) : Prop where
  claimed_size : b.claimed.size = t.size
  hoisted_size : b.hoisted.size = t.size
  isClaimed_iff : ∀ y, b.isClaimed y = true ↔ ∃ i ∈ done, y ∈ t.bulletSpine i
  hoistedOf_eq : ∀ i, b.hoistedOf i = if i ∈ done then
    (t.bulletSpine i).filter (fun y => hasLeading c y && t.spineOwner? done y == some i) else []

theorem Owns.start :
    Owns t c (start t) [] := by
  unfold BulletClaims.start
  refine ⟨by simp, by simp, ?_, ?_⟩
  · intro y
    simp only [isClaimed, Array.getD_eq_getD_getElem?, Array.getElem?_replicate]
    split <;> simp
  · intro i
    simp only [hoistedOf, Array.getD_eq_getD_getElem?, Array.getElem?_replicate]
    split <;> simp

theorem spineOwner?_append {done : List Nat} {y i : Nat} (item : Nat) (member : i ∈ done)
    (onSpine : y ∈ t.bulletSpine i) :
    t.spineOwner? (done ++ [item]) y = t.spineOwner? done y := by
  have found : (t.spineOwner? done y).isSome = true :=
    List.find?_isSome.mpr ⟨i, member, by simpa using onSpine⟩
  unfold Tree.spineOwner? at found ⊢
  rw [List.find?_append]
  cases owner : done.find? (fun i => decide (y ∈ t.bulletSpine i))
  · rw [owner] at found
    cases found
  · rfl

theorem Owns.claimSpine (shaped : t.TreeShaped) {b : BulletClaims} {done : List Nat} {item : Nat}
    (owns : Owns t c b done) (inside : item < t.size)
    (seqItem : ∃ p, item ∈ t.childrenOf p ∧ t.isMapping p = false)
    (later : ∀ i ∈ done, i ∉ t.bulletSpine item) :
    Owns t c (BulletClaims.claimSpine t c item b) (done ++ [item]) := by
  have notDone : item ∉ done := fun member => later item member (Tree.mem_bulletSpine_self item)
  have hoistedInside : item < b.hoisted.size := owns.hoisted_size ▸ inside
  have doneIff : ∀ j, j ≠ item → (j ∈ done ++ [item] ↔ j ∈ done) := by
    intro j ne
    simp [ne]
  -- Handling the item changes the hoisted list of no other item.
  have others : ∀ (b' : BulletClaims) (hoisted : List Nat), b'.hoisted = b.hoisted → ∀ j, j ≠ item →
      ({ b' with hoisted := b'.hoisted.set! item hoisted } : BulletClaims).hoistedOf j =
        if j ∈ done ++ [item] then (t.bulletSpine j).filter
          (fun y => hasLeading c y && t.spineOwner? (done ++ [item]) y == some j) else [] := by
    intro b' hoisted same j ne
    rw [hoistedOf_set (same ▸ hoistedInside), if_neg ne]
    unfold hoistedOf
    rw [same]
    change b.hoistedOf j = _
    rw [owns.hoistedOf_eq]
    by_cases member : j ∈ done
    · rw [if_pos member, if_pos ((doneIff j ne).mpr member)]
      exact List.filter_congr fun y onSpine => by rw [spineOwner?_append item member onSpine]
    · rw [if_neg member, if_neg (mt (doneIff j ne).mp member)]
  by_cases claimed : b.isClaimed item = true
  · -- The item lies on the spine of an earlier item, which holds its whole spine.
    obtain ⟨i, member, onSpine⟩ := (owns.isClaimed_iff item).mp claimed
    obtain ⟨p, child, notMapping⟩ := seqItem
    have within := shaped.bulletSpine_subset onSpine child notMapping
    rw [claimSpine_of_claimed hoistedInside claimed]
    refine ⟨owns.claimed_size, by simp [owns.hoisted_size], fun y => ?_, fun j => ?_⟩
    · change b.isClaimed y = true ↔ _
      rw [owns.isClaimed_iff]
      constructor
      · rintro ⟨j, hj, hy⟩
        exact ⟨j, List.mem_append_left _ hj, hy⟩
      · rintro ⟨j, hj, hy⟩
        rcases List.mem_append.mp hj with old | new
        · exact ⟨j, old, hy⟩
        · rw [List.mem_singleton] at new
          subst new
          exact ⟨i, member, within y hy⟩
    by_cases same : j = item
    · subst same
      rw [hoistedOf_set hoistedInside, if_pos rfl, if_pos (by simp)]
      -- every node of the item's spine has an earlier owner
      symm
      refine List.filter_eq_nil_iff.mpr fun y onItem => ?_
      rw [spineOwner?_append j member (within y onItem)]
      have owned : (t.spineOwner? done y).isSome = true :=
        List.find?_isSome.mpr ⟨i, member, by simpa using within y onItem⟩
      obtain ⟨owner, found⟩ := Option.isSome_iff_exists.mp owned
      have ownerDone : owner ∈ done := List.mem_of_find?_eq_some found
      have ne : owner ≠ j := fun same => notDone (same ▸ ownerDone)
      simp [found, ne]
    · exact others b [] rfl j same
  · -- No node of the item's spine is claimed: the walk claims all of it.
    have unclaimed : ∀ y ∈ t.bulletSpine item, b.isClaimed y = false := by
      intro y onItem
      cases claimedY : b.isClaimed y
      · rfl
      · obtain ⟨i, member, onI⟩ := (owns.isClaimed_iff y).mp claimedY
        rcases shaped.bulletSpine_nested onI onItem with outer | inner
        · exact absurd outer (later i member)
        · obtain ⟨p, child, notMapping⟩ := seqItem
          have within := shaped.bulletSpine_subset inner child notMapping
          exact absurd ((owns.isClaimed_iff item).mpr
            ⟨i, member, within item (Tree.mem_bulletSpine_self item)⟩) claimed
    have unowned : ∀ y ∈ t.bulletSpine item, t.spineOwner? done y = none := by
      intro y onItem
      refine List.find?_eq_none.mpr fun i member onI => ?_
      have := (owns.isClaimed_iff y).mpr ⟨i, member, by simpa using onI⟩
      rw [unclaimed y onItem] at this
      cases this
    obtain ⟨b', grows, walked⟩ := claimSpine_of_unclaimed (c := c) inside owns.claimed_size
      hoistedInside unclaimed
    rw [walked]
    refine ⟨by rw [grows.size_eq, owns.claimed_size], by simp [grows.hoisted_eq,
      owns.hoisted_size], fun y => ?_, fun j => ?_⟩
    · change b'.isClaimed y = true ↔ _
      rw [grows.isClaimed_iff, owns.isClaimed_iff]
      simp only [List.mem_append, List.mem_singleton]
      constructor
      · rintro (⟨i, member, onI⟩ | onItem)
        · exact ⟨i, .inl member, onI⟩
        · exact ⟨item, .inr rfl, onItem⟩
      · rintro ⟨i, member | rfl, onI⟩
        · exact .inl ⟨i, member, onI⟩
        · exact .inr onI
    by_cases same : j = item
    · subst same
      rw [hoistedOf_set (grows.hoisted_eq ▸ hoistedInside), if_pos rfl, if_pos (by simp)]
      -- every node of the item's spine is the item's own
      refine List.filter_congr fun y onItem => ?_
      unfold Tree.spineOwner? at unowned ⊢
      rw [List.find?_append, unowned y onItem]
      simp [onItem]
    · exact others b' _ grows.hoisted_eq j same

theorem Owns.foldl (shaped : t.TreeShaped) {b : BulletClaims} {done items : List Nat}
    (owns : Owns t c b done) (order : (done ++ items).Pairwise fun a b => a ∉ t.bulletSpine b)
    (facts : ∀ i ∈ items, i < t.size ∧ ∃ p, i ∈ t.childrenOf p ∧ t.isMapping p = false) :
    Owns t c (items.foldl (fun b item => BulletClaims.claimSpine t c item b) b) (done ++ items) := by
  induction items generalizing b done with
  | nil => simpa using owns
  | cons item rest ih =>
    rw [List.foldl_cons]
    have later : ∀ i ∈ done, i ∉ t.bulletSpine item := fun i member =>
      (List.pairwise_append.mp order).2.2 i member item List.mem_cons_self
    have step := owns.claimSpine shaped (facts item List.mem_cons_self).1
      (facts item List.mem_cons_self).2 later
    simpa using ih step (by simpa using order)
      (fun i member => facts i (List.mem_cons_of_mem item member))

/-- With enough fuel, the walk below `id` handles the items of the bullet sequences below it in
the order the walk meets them, after checking `id` itself. -/
theorem visit_eq_foldl {fuel id : Nat} (enough : id < fuel) (inFlow : Bool) (b : BulletClaims) :
    visit t c fuel id inFlow b =
      (t.bulletItems id inFlow).foldl (fun b item => claimSpine t c item b) (b.check id t.size) := by
  induction fuel generalizing id inFlow b with
  | zero => omega
  | succ fuel ih =>
    rw [visit, Tree.bulletItems_eq]
    have kids : ((t.kind? id).map NodeKind.children).getD [] = t.childrenOf id := rfl
    rw [kids]
    by_cases inside : id < t.size
    · rw [if_pos inside, List.foldl_append, List.foldl_flatMap, check_of_lt _ inside]
      have same : (!(t.rendersInFlow id inFlow || inFlow) && t.hasBullets id) =
          (!inFlow && t.hasBullets id) := by
        cases bullets : t.hasBullets id
        · simp
        · rw [Tree.rendersInFlow_of_hasBullets bullets]
          simp
      have own : (if (!inFlow && t.hasBullets id) = true then
          (t.childrenOf id).foldl (fun b item => claimSpine t c item b) b else b) =
          (if (!inFlow && t.hasBullets id) = true then t.childrenOf id else []).foldl
            (fun b item => claimSpine t c item b) b := by
        split <;> rfl
      rw [same, own]
      apply List.foldl_ext
      intro b' k member
      have below := Tree.lt_of_mem_childrenOf member
      rw [ih (by omega) _ b', check_of_lt _ (by omega)]
    · rw [if_neg inside, Tree.childrenOf_of_le (Nat.le_of_not_lt inside)]
      have none : t.hasBullets id = false := by
        have missing : t.kind? id = none := by
          simp [Tree.kind?, Tree.get?, Array.getElem?_eq_none (Nat.le_of_not_lt inside)]
        simp [Tree.hasBullets, missing]
      simp [none]

/-- The whole pre-pass handles the items of the walk, in the order the walk meets them. -/
theorem collect_eq_foldl (t : Tree) (c : Comments) :
    collect t c = t.walkBulletItems.foldl (fun b item => claimSpine t c item b)
      (start t) := by
  unfold collect Tree.walkBulletItems
  cases root : t.root? with
  | none => rfl
  | some r =>
    dsimp only
    have inside : r < t.size := by have := Tree.root_eq root; omega
    rw [visit_eq_foldl (by omega) false _, check_of_lt _ inside]
    rfl

theorem Owns.collect (shaped : t.TreeShaped) : Owns t c (collect t c) t.walkBulletItems := by
  rw [collect_eq_foldl]
  have order : t.walkBulletItems.Pairwise fun a b => a ∉ t.bulletSpine b := by
    unfold Tree.walkBulletItems
    cases t.root? with
    | none => exact List.Pairwise.nil
    | some r => exact shaped.bulletItems_pairwise r false
  simpa using Owns.start.foldl shaped (by simpa using order)
    fun i member => Tree.bulletItem_facts member

/-- What the bullet pre-pass is to compute: it claims the spines of the bullet items of the
walk, and hoists each claimed node with leading comments in front of the outermost bullet whose
line it starts on, and in front of no other. -/
structure HoistsOnce (t : Tree) (c : Comments) (b : BulletClaims) : Prop where
  isClaimed_iff : ∀ y, b.isClaimed y = true ↔ ∃ item ∈ t.walkBulletItems, y ∈ t.bulletSpine item
  hoisted_disjoint : ∀ i j, i ≠ j → ∀ y ∈ b.hoistedOf i, y ∉ b.hoistedOf j
  hoisted_sublist : ∀ i, (b.hoistedOf i).Sublist (t.bulletSpine i)
  hoisted_claimed : ∀ i, ∀ y ∈ b.hoistedOf i, b.isClaimed y = true ∧ c.leading y ≠ []
  hoisted_outermost : ∀ y, b.isClaimed y = true → c.leading y ≠ [] →
    ∃ item ∈ t.walkBulletItems, y ∈ t.bulletSpine item ∧
      (∀ j ∈ t.walkBulletItems, y ∈ t.bulletSpine j → j ∈ t.bulletSpine item) ∧
      ∀ j, y ∈ b.hoistedOf j ↔ j = item

theorem Owns.mem_hoistedOf {b : BulletClaims} {done : List Nat} (owns : Owns t c b done)
    {i y : Nat} (member : y ∈ b.hoistedOf i) :
    i ∈ done ∧ y ∈ t.bulletSpine i ∧ hasLeading c y = true ∧ t.spineOwner? done y = some i := by
  rw [owns.hoistedOf_eq] at member
  split at member
  · rename_i handled
    obtain ⟨onSpine, owned⟩ := List.mem_filter.mp member
    simp only [Bool.and_eq_true, beq_iff_eq] at owned
    exact ⟨handled, onSpine, owned⟩
  · cases member

theorem outermost_of_spineOwner? (shaped : t.TreeShaped) {done : List Nat} {y i : Nat}
    (order : done.Pairwise fun a b => a ∉ t.bulletSpine b) (owner : t.spineOwner? done y = some i)
    {j : Nat} (member : j ∈ done) (onJ : y ∈ t.bulletSpine j) : j ∈ t.bulletSpine i := by
  obtain ⟨onI, before, after, split, earlier⟩ := List.find?_eq_some_iff_append.mp owner
  simp only [decide_eq_true_eq] at onI
  rw [split] at member order
  rcases List.mem_append.mp member with early | late
  · have := earlier j early
    simp [onJ] at this
  rcases List.mem_cons.mp late with same | after'
  · rw [same]
    exact Tree.mem_bulletSpine_self i
  -- `i` comes before `j`, so it does not lie on `j`'s spine
  have apart := List.pairwise_cons.mp (List.pairwise_append.mp order).2.1
  rcases shaped.bulletSpine_nested onI onJ with inner | outer
  · exact absurd inner (apart.1 j after')
  · exact outer

theorem collect_hoistsOnce (shaped : t.TreeShaped) (c : Comments) :
    HoistsOnce t c (collect t c) := by
  have owns : Owns t c (collect t c) t.walkBulletItems := Owns.collect shaped
  have order : t.walkBulletItems.Pairwise fun a b => a ∉ t.bulletSpine b := by
    unfold Tree.walkBulletItems
    cases t.root? with
    | none => exact List.Pairwise.nil
    | some r => exact shaped.bulletItems_pairwise r false
  have leading : ∀ y, hasLeading c y = true ↔ c.leading y ≠ [] := by
    intro y
    simp [hasLeading]
  refine ⟨owns.isClaimed_iff, ?_, ?_, ?_, ?_⟩
  · intro i j ne y inI inJ
    have ownerI := (owns.mem_hoistedOf inI).2.2.2
    rw [(owns.mem_hoistedOf inJ).2.2.2, Option.some.injEq] at ownerI
    exact ne ownerI.symm
  · intro i
    rw [owns.hoistedOf_eq]
    split
    · exact List.filter_sublist
    · exact List.nil_sublist _
  · intro i y member
    obtain ⟨handled, onSpine, lead, -⟩ := owns.mem_hoistedOf member
    exact ⟨(owns.isClaimed_iff y).mpr ⟨i, handled, onSpine⟩, (leading y).mp lead⟩
  · intro y claimed lead
    obtain ⟨i, member, onI⟩ := (owns.isClaimed_iff y).mp claimed
    obtain ⟨item, found⟩ := Option.isSome_iff_exists.mp
      (List.find?_isSome.mpr ⟨i, member, by simpa using onI⟩ :
        (t.spineOwner? t.walkBulletItems y).isSome = true)
    have found : t.spineOwner? t.walkBulletItems y = some item := found
    have itemMember : item ∈ t.walkBulletItems := List.mem_of_find?_eq_some found
    have onItem : y ∈ t.bulletSpine item := by
      simpa using (List.find?_eq_some_iff_append.mp found).1
    refine ⟨item, itemMember, onItem,
      fun j member onJ => outermost_of_spineOwner? shaped order found member onJ, fun j => ?_⟩
    constructor
    · intro inJ
      have ownerJ := (owns.mem_hoistedOf inJ).2.2.2
      rw [found, Option.some.injEq] at ownerJ
      exact ownerJ.symm
    · rintro rfl
      rw [owns.hoistedOf_eq, if_pos itemMember]
      exact List.mem_filter.mpr ⟨onItem, by simp [(leading y).mpr lead, found]⟩

end BulletClaims

/-- `- - a: 1` then `- b`, with a comment on the inner sequence, on the mapping and on its key,
which all start on the first bullet's line. -/
def nestedBulletsNodes : List Node :=
  [{ kind := .scalar { value := "a" } }, { kind := .scalar { value := "1" } },
    { kind := .mapping { children := [0, 1] } }, { kind := .sequence { children := [2] } },
    { kind := .scalar { value := "b" } }, { kind := .sequence { children := [3, 4] } }]

def nestedBullets : AnnotatedTree :=
  let comments : Comments :=
    { slots := #[{ leading := ["# a"] }, {}, { leading := ["# m"] }, { leading := ["# s"] }, {}, {}] }
  match Tree.empty.pushAll nestedBulletsNodes with
  | .ok t => ⟨t, comments⟩
  | .error _ => ⟨Tree.empty, comments⟩

/-- The outer item hoists the three comments of its line; the inner item, handled later, finds
its line claimed and hoists nothing. -/
theorem nestedBullets_hoist_once :
    nestedBullets.tree.TreeShaped ∧
      BulletClaims.HoistsOnce nestedBullets.tree nestedBullets.comments
        (BulletClaims.collect nestedBullets.tree nestedBullets.comments) ∧
      (BulletClaims.collect nestedBullets.tree nestedBullets.comments).hoistedOf 3 = [3, 2, 0] ∧
      (BulletClaims.collect nestedBullets.tree nestedBullets.comments).hoistedOf 2 = [] :=
  have shaped : nestedBullets.tree.TreeShaped := by decide
  ⟨shaped, BulletClaims.collect_hoistsOnce shaped nestedBullets.comments, by decide +kernel,
    by decide +kernel⟩

end AnnotatedYaml
