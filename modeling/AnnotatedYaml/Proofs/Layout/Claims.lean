import Mathlib.Data.List.Perm.Basic
import AnnotatedYaml.Layout.Claims
import AnnotatedYaml.Proofs.Tree.Shape

/-! What the bullet pre-pass computes, and that its tables are sized to the tree. -/

namespace AnnotatedYaml

namespace Tree

variable (t : Tree)

def isCollection (i : Nat) : Bool := ((t.kind? i).bind NodeKind.collection?).isSome

/-- The items of the block sequences at or below `i` that are written after `- ` bullets, in
pre-order: those of the non-empty block sequences met outside every flow collection. -/
def bulletItems (i : Nat) (inFlow : Bool) : List Nat :=
  (t.flowPreorder i inFlow).flatMap fun (y, f) =>
    if !f && t.hasBullets y then t.childrenOf y else []

variable {t}

theorem rendersInFlow_of_hasBullets {i : Nat} (bullets : t.hasBullets i = true) (inFlow : Bool) :
    t.rendersInFlow i inFlow = inFlow := by
  unfold hasBullets at bullets
  unfold rendersInFlow
  split at bullets
  · rename_i col same
    rw [same]
    simp only [Bool.and_eq_true, Bool.not_eq_true', List.isEmpty_eq_false_iff] at bullets
    obtain ⟨nonempty, block⟩ := bullets
    have filled : col.children.isEmpty = false := List.isEmpty_eq_false_iff.mpr nonempty
    cases style : col.style
    · dsimp only
      rw [filled, style]
      cases inFlow <;> rfl
    · rw [style] at block
      exact absurd block (by decide)
  · cases bullets

theorem isCollection_of_hasBullets {i : Nat} (bullets : t.hasBullets i = true) :
    t.isCollection i = true := by
  unfold hasBullets at bullets
  unfold isCollection
  cases known : t.kind? i with
  | none =>
    rw [known] at bullets
    cases bullets
  | some k =>
    cases k <;> simp_all [NodeKind.collection?]

theorem bulletItems_eq (i : Nat) (inFlow : Bool) :
    t.bulletItems i inFlow = if i < t.size then
      (if !inFlow && t.hasBullets i then t.childrenOf i else []) ++
        (t.childrenOf i).flatMap (t.bulletItems · (t.rendersInFlow i inFlow || inFlow))
    else [] := by
  unfold bulletItems
  rw [flowPreorder_eq]
  split
  · simp only [List.flatMap_cons, List.flatMap_assoc]
  · rfl

theorem exists_parent_of_mem_bulletItems {item i : Nat} {inFlow : Bool}
    (member : item ∈ t.bulletItems i inFlow) :
    ∃ p ∈ t.preorder i, item ∈ t.childrenOf p ∧ t.hasBullets p = true := by
  unfold bulletItems at member
  obtain ⟨⟨p, f⟩, visited, hp⟩ := List.mem_flatMap.mp member
  dsimp only at hp
  split at hp
  · rename_i keep
    have onPath : p ∈ (t.flowPreorder i inFlow).map Prod.fst := List.mem_map_of_mem visited
    rw [map_fst_flowPreorder] at onPath
    exact ⟨p, onPath, hp, ((Bool.and_eq_true _ _).mp keep).2⟩
  · cases hp

theorem isCollection_of_continuesOnBulletLine {i : Nat}
    (continues : t.continuesOnBulletLine i = true) : t.isCollection i = true := by
  unfold continuesOnBulletLine at continues
  simp only [Bool.and_eq_true] at continues
  exact continues.2

theorem TreeShaped.bulletItems_nodup (shaped : t.TreeShaped) (i : Nat) (inFlow : Bool) :
    (t.bulletItems i inFlow).Nodup := by
  unfold bulletItems
  apply shaped.flatMap_childrenOf_nodup
  rw [map_fst_flowPreorder]
  exact shaped.preorder_nodup i

end Tree

namespace BulletClaims

variable {t : Tree} {c : Comments}

@[simp] theorem check_claimed (b : BulletClaims) (i n : Nat) : (b.check i n).claimed = b.claimed := by
  unfold check
  split <;> rfl

@[simp] theorem check_hoisted (b : BulletClaims) (i n : Nat) : (b.check i n).hoisted = b.hoisted := by
  unfold check
  split <;> rfl

@[simp] theorem isClaimed_check (b : BulletClaims) (i n y : Nat) :
    (b.check i n).isClaimed y = b.isClaimed y := by
  simp [isClaimed]

theorem check_of_lt (b : BulletClaims) {i n : Nat} (inside : i < n) : b.check i n = b := by
  simp [check, inside]

@[simp] theorem hoistedOf_check (b : BulletClaims) (i n : Nat) :
    (b.check i n).hoistedOf = b.hoistedOf := by
  funext item
  simp [hoistedOf]

@[simp] theorem claim_hoisted (b : BulletClaims) (i : Nat) : (b.claim i).hoisted = b.hoisted := by
  simp [claim]

@[simp] theorem claim_size (b : BulletClaims) (i : Nat) :
    (b.claim i).claimed.size = b.claimed.size := by
  simp [claim]

theorem isClaimed_claim {b : BulletClaims} {i : Nat} (inside : i < b.claimed.size) (y : Nat) :
    (b.claim i).isClaimed y = true ↔ y = i ∨ b.isClaimed y = true := by
  unfold isClaimed claim
  by_cases same : y = i
  · subst same
    simp [Array.getD_eq_getD_getElem?, inside]
  · simp [Array.getD_eq_getD_getElem?, Array.getElem?_setIfInBounds_ne (Ne.symm same), same]

/-- `b'` claims what `b` claims and the fresh nodes, which `b` left unclaimed; the hoisted lists
stay as they were. -/
structure Extends (b b' : BulletClaims) (fresh : List Nat) : Prop where
  size_eq : b'.claimed.size = b.claimed.size
  hoisted_eq : b'.hoisted = b.hoisted
  nodup : fresh.Nodup
  unclaimed : ∀ y ∈ fresh, b.isClaimed y = false
  isClaimed_iff : ∀ y, b'.isClaimed y = true ↔ b.isClaimed y = true ∨ y ∈ fresh

theorem Extends.refl (b : BulletClaims) : Extends b b [] :=
  ⟨rfl, rfl, List.nodup_nil, fun _ none => (by cases none), fun _ => (by simp)⟩

theorem Extends.check {b b' : BulletClaims} {fresh : List Nat} (grows : Extends b b' fresh)
    (i n : Nat) : Extends b (b'.check i n) fresh :=
  ⟨by simp [grows.size_eq], by simp [grows.hoisted_eq], grows.nodup, grows.unclaimed,
    fun y => by simp [grows.isClaimed_iff]⟩

theorem Extends.of_check {b b' : BulletClaims} {fresh : List Nat} {i n : Nat}
    (grows : Extends (b.check i n) b' fresh) : Extends b b' fresh :=
  ⟨by simp [grows.size_eq], by simp [grows.hoisted_eq], grows.nodup,
    fun y member => by simpa using grows.unclaimed y member,
    fun y => by simpa using grows.isClaimed_iff y⟩

theorem Extends.claim {b b' : BulletClaims} {fresh : List Nat} {i : Nat}
    (inside : i < b.claimed.size) (unclaimed : b.isClaimed i = false)
    (rest : Extends (b.claim i) b' fresh) : Extends b b' (i :: fresh) := by
  have before : ∀ y, (b.claim i).isClaimed y = true ↔ y = i ∨ b.isClaimed y = true :=
    isClaimed_claim inside
  refine ⟨by rw [rest.size_eq, claim_size], by rw [rest.hoisted_eq, claim_hoisted], ?_, ?_, ?_⟩
  · refine List.nodup_cons.mpr ⟨fun member => ?_, rest.nodup⟩
    have := rest.unclaimed i member
    rw [(before i).mpr (Or.inl rfl)] at this
    cases this
  · intro y member
    rcases List.mem_cons.mp member with rfl | later
    · exact unclaimed
    · have fresh' := rest.unclaimed y later
      cases claimed : b.isClaimed y
      · rfl
      · rw [(before y).mpr (Or.inr claimed)] at fresh'
        cases fresh'
  · intro y
    rw [rest.isClaimed_iff, before, List.mem_cons]
    tauto

def hasLeading (c : Comments) (y : Nat) : Bool := !(c.leading y).isEmpty

theorem push_if_leading (acc : List Nat) (y : Nat) :
    (if (c.leading y).isEmpty = true then acc else acc ++ [y]) =
      acc ++ [y].filter (hasLeading c) := by
  by_cases empty : (c.leading y).isEmpty = true <;> simp [empty, hasLeading]

/-- The walk along a bullet line from `cur` claims fresh nodes below `cur`, each `cur` itself or
the child of a collection, and appends those with leading comments to `acc`. -/
theorem go_spec (fuel cur : Nat) (b : BulletClaims) (acc : List Nat) (inside : cur < t.size)
    (sized : b.claimed.size = t.size) :
    ∃ fresh, Extends b (claimSpine.go t c fuel cur b acc).1 fresh ∧
      (claimSpine.go t c fuel cur b acc).2 = acc ++ fresh.filter (hasLeading c) ∧
      ∀ y ∈ fresh, y ∈ t.preorder cur ∧
        (y = cur ∨ ∃ p, y ∈ t.childrenOf p ∧ t.isCollection p = true) := by
  induction fuel generalizing cur b acc with
  | zero => exact ⟨[], Extends.refl b, by simp [claimSpine.go], by simp⟩
  | succ fuel ih =>
    rw [claimSpine.go]
    by_cases claimed : b.isClaimed cur = true
    · rw [if_pos claimed]
      exact ⟨[], Extends.refl b, by simp, by simp⟩
    rw [if_neg claimed]
    have unclaimed : b.isClaimed cur = false := by simpa using claimed
    have insideB : cur < b.claimed.size := sized ▸ inside
    have here : cur ∈ t.preorder cur := Tree.mem_preorder_self inside
    -- The walk may stop right after claiming `cur`.
    have stop : ∃ fresh, Extends b ((b.claim cur).check cur t.size) fresh ∧
        (if (c.leading cur).isEmpty = true then acc else acc ++ [cur]) =
          acc ++ fresh.filter (hasLeading c) ∧
        ∀ y ∈ fresh, y ∈ t.preorder cur ∧
          (y = cur ∨ ∃ p, y ∈ t.childrenOf p ∧ t.isCollection p = true) :=
      ⟨[cur], Extends.claim insideB unclaimed ((Extends.refl _).check _ _),
        push_if_leading acc cur, by simp [here]⟩
    dsimp only
    split
    · exact stop
    rename_i continues
    have collection : t.isCollection cur = true :=
      Tree.isCollection_of_continuesOnBulletLine (by simpa using continues)
    split
    · exact stop
    rename_i k known
    split
    · exact stop
    rename_i first tail kids
    have firstChild : first ∈ t.childrenOf cur := by
      simp [Tree.childrenOf, known, kids]
    have firstBelow : first ∈ t.preorder cur :=
      Tree.preorder_subset_of_child firstChild first
        (Tree.mem_preorder_self (Nat.lt_trans (Tree.lt_of_mem_childrenOf firstChild) inside))
    have firstInside : first < t.size := Nat.lt_trans (Tree.lt_of_mem_childrenOf firstChild) inside
    split
    · -- A mapping: its first key shares the bullet's line, and the walk stops there.
      split
      · exact stop
      rename_i keyClaimed
      refine ⟨[cur, first], Extends.claim insideB unclaimed
        (Extends.claim (by simpa [sized] using firstInside) (by simpa using keyClaimed)
          (Extends.refl _)).of_check, ?_, ?_⟩
      · rw [push_if_leading, push_if_leading]
        by_cases lead : hasLeading c cur = true <;> simp [List.filter_cons, lead]
      · intro y member
        simp only [List.mem_cons, List.not_mem_nil, or_false] at member
        rcases member with rfl | rfl
        · exact ⟨here, Or.inl rfl⟩
        · exact ⟨firstBelow, Or.inr ⟨cur, firstChild, collection⟩⟩
    · -- A sequence: the walk goes on with its first item.
      obtain ⟨fresh, grows, appended, spine⟩ := ih first ((b.claim cur).check cur t.size)
        (if (c.leading cur).isEmpty = true then acc else acc ++ [cur]) firstInside
        (by simp [sized])
      refine ⟨cur :: fresh, Extends.claim insideB unclaimed grows.of_check, ?_, ?_⟩
      · rw [appended, push_if_leading]
        by_cases lead : hasLeading c cur = true <;> simp [lead]
      · intro y member
        rcases List.mem_cons.mp member with rfl | later
        · exact ⟨here, Or.inl rfl⟩
        · obtain ⟨below, place⟩ := spine y later
          refine ⟨Tree.preorder_subset_of_child firstChild y below, Or.inr ?_⟩
          rcases place with rfl | parent
          · exact ⟨cur, firstChild, collection⟩
          · exact parent

theorem hoistedOf_set {b : BulletClaims} {item : Nat} (inside : item < b.hoisted.size)
    (hoisted : List Nat) (i : Nat) :
    ({ b with hoisted := b.hoisted.set! item hoisted } : BulletClaims).hoistedOf i =
      if i = item then hoisted else b.hoistedOf i := by
  unfold hoistedOf
  by_cases same : i = item
  · subst same
    simp [Array.getD_eq_getD_getElem?, inside]
  · simp [Array.getD_eq_getD_getElem?, Array.getElem?_setIfInBounds_ne (Ne.symm same), same]

theorem filter_claimed_perm {b b' : BulletClaims} {fresh : List Nat} (grows : Extends b b' fresh)
    (inside : ∀ y ∈ fresh, y < t.size) :
    ((List.range t.size).filter fun y => b'.isClaimed y && hasLeading c y).Perm
      (((List.range t.size).filter fun y => b.isClaimed y && hasLeading c y) ++
        fresh.filter (hasLeading c)) := by
  have apart : ∀ y ∈ (List.range t.size).filter (fun y => b.isClaimed y && hasLeading c y),
      ∀ z ∈ fresh.filter (hasLeading c), y ≠ z := by
    intro y hy z hz same
    subst same
    have old := (List.mem_filter.mp hy).2
    have new := grows.unclaimed y (List.mem_filter.mp hz).1
    simp [new] at old
  apply (List.perm_ext_iff_of_nodup (List.nodup_range.filter _) (List.nodup_append.mpr
    ⟨List.nodup_range.filter _, grows.nodup.filter _, apart⟩)).mpr
  intro y
  simp only [List.mem_append, List.mem_filter, List.mem_range, Bool.and_eq_true,
    grows.isClaimed_iff]
  constructor
  · rintro ⟨below, old | new, lead⟩
    · exact Or.inl ⟨below, old, lead⟩
    · exact Or.inr ⟨new, lead⟩
  · rintro (⟨below, old, lead⟩ | ⟨new, lead⟩)
    · exact ⟨below, Or.inl old, lead⟩
    · exact ⟨inside y new, Or.inr new, lead⟩

/-- The pre-pass after it has handled the bullet items `done`: every other item hoists nothing,
the hoisted lists of the handled items hold each claimed node with leading comments once, and
each claimed node stands below a handled item as the child of a collection. -/
structure Handled (t : Tree) (c : Comments) (b : BulletClaims) (done : List Nat) : Prop where
  claimed_size : b.claimed.size = t.size
  hoisted_size : b.hoisted.size = t.size
  unhoisted : ∀ i, i ∉ done → b.hoistedOf i = []
  hoisted_perm : (done.flatMap b.hoistedOf).Perm
    ((List.range t.size).filter fun y => b.isClaimed y && hasLeading c y)
  claimed_below : ∀ y, b.isClaimed y = true → ∃ i ∈ done, y ∈ t.preorder i
  claimed_child :
    ∀ y, b.isClaimed y = true → ∃ p, y ∈ t.childrenOf p ∧ t.isCollection p = true

theorem Handled.start :
    Handled t c (start t) [] := by
  have unclaimed : ∀ y, (BulletClaims.start t).isClaimed y = false := by
    intro y
    simp only [isClaimed, BulletClaims.start, Array.getD_eq_getD_getElem?,
      Array.getElem?_replicate]
    split <;> rfl
  refine ⟨by simp [BulletClaims.start], by simp [BulletClaims.start], ?_, ?_, ?_, ?_⟩
  · intro i _
    simp only [hoistedOf, BulletClaims.start, Array.getD_eq_getD_getElem?,
      Array.getElem?_replicate]
    split <;> rfl
  · simp [unclaimed]
  · intro y claimed
    simp [unclaimed] at claimed
  · intro y claimed
    simp [unclaimed] at claimed

theorem Handled.check {b : BulletClaims} {done : List Nat} (handled : Handled t c b done)
    (i n : Nat) : Handled t c (b.check i n) done := by
  refine ⟨by simp [handled.claimed_size], by simp [handled.hoisted_size], fun j outside => ?_,
    ?_, fun y => ?_, fun y => ?_⟩
  · simpa using handled.unhoisted j outside
  · simpa using handled.hoisted_perm
  · simpa using handled.claimed_below y
  · simpa using handled.claimed_child y

theorem Handled.claimSpine {b : BulletClaims} {done : List Nat} {item : Nat}
    (handled : Handled t c b done) (fresh : item ∉ done) (inside : item < t.size)
    (child : ∃ p, item ∈ t.childrenOf p ∧ t.isCollection p = true) :
    Handled t c (BulletClaims.claimSpine t c item b) (done ++ [item]) := by
  obtain ⟨new, grows, appended, spine⟩ :=
    go_spec (c := c) (t.size + 1) item b [] inside handled.claimed_size
  unfold BulletClaims.claimSpine
  generalize claimSpine.go t c (t.size + 1) item b [] = walked at grows appended
  obtain ⟨b', acc⟩ := walked
  dsimp only at grows appended ⊢
  subst appended
  -- the check of `item` against the table of hoisted lists changes nothing the invariant reads
  replace grows := grows.check item b'.hoisted.size
  generalize b'.check item b'.hoisted.size = b' at grows ⊢
  have hoistedInside : item < b'.hoisted.size := by
    rw [grows.hoisted_eq, handled.hoisted_size]
    exact inside
  have below : ∀ y ∈ new, y < t.size := fun y member =>
    Tree.lt_size_of_mem_preorder (spine y member).1
  have claimedSame : ∀ (hoisted : List Nat) y,
      ({ b' with hoisted := b'.hoisted.set! item hoisted } : BulletClaims).isClaimed y =
        b'.isClaimed y :=
    fun _ _ => rfl
  refine ⟨by rw [grows.size_eq, handled.claimed_size], by simp [grows.hoisted_eq,
    handled.hoisted_size], ?_, ?_, ?_, ?_⟩
  · intro i outside
    have other : i ≠ item := fun same => outside (by simp [same])
    rw [hoistedOf_set hoistedInside, if_neg other]
    unfold hoistedOf
    rw [grows.hoisted_eq]
    exact handled.unhoisted i (fun member => outside (List.mem_append_left _ member))
  · rw [List.flatMap_append]
    have kept : ∀ hoisted : List Nat,
        done.flatMap ({ b' with hoisted := b'.hoisted.set! item hoisted } : BulletClaims).hoistedOf =
          done.flatMap b.hoistedOf := by
      intro hoisted
      apply List.flatMap_congr
      intro i member
      have other : i ≠ item := fun same => fresh (same ▸ member)
      rw [hoistedOf_set hoistedInside, if_neg other]
      unfold hoistedOf
      rw [grows.hoisted_eq]
    rw [kept]
    simp only [List.flatMap_cons, List.flatMap_nil, List.append_nil]
    rw [hoistedOf_set hoistedInside, if_pos rfl, List.nil_append]
    simp only [claimedSame]
    exact ((handled.hoisted_perm).append_right _).trans (filter_claimed_perm grows below).symm
  · intro y claimed
    rw [claimedSame, grows.isClaimed_iff] at claimed
    rcases claimed with old | new'
    · obtain ⟨i, member, under⟩ := handled.claimed_below y old
      exact ⟨i, List.mem_append_left _ member, under⟩
    · exact ⟨item, by simp, (spine y new').1⟩
  · intro y claimed
    rw [claimedSame, grows.isClaimed_iff] at claimed
    rcases claimed with old | new'
    · exact handled.claimed_child y old
    · rcases (spine y new').2 with rfl | parent
      · exact child
      · exact parent

theorem Handled.foldl_claimSpine {b : BulletClaims} {done items : List Nat}
    (handled : Handled t c b done) (fresh : (done ++ items).Nodup)
    (inside : ∀ item ∈ items, item < t.size)
    (child : ∀ item ∈ items, ∃ p, item ∈ t.childrenOf p ∧ t.isCollection p = true) :
    Handled t c (items.foldl (fun b item => BulletClaims.claimSpine t c item b) b)
      (done ++ items) := by
  induction items generalizing b done with
  | nil => simpa using handled
  | cons item rest ih =>
    rw [List.foldl_cons]
    have notDone : item ∉ done := fun member =>
      (List.nodup_append.mp fresh).2.2 item member item List.mem_cons_self rfl
    have step := handled.claimSpine notDone (inside item List.mem_cons_self)
      (child item List.mem_cons_self)
    have later := ih step (by simpa using fresh)
      (fun i member => inside i (List.mem_cons_of_mem _ member))
      (fun i member => child i (List.mem_cons_of_mem _ member))
    simpa using later

theorem Handled.visit {fuel id : Nat} {inFlow : Bool} {b : BulletClaims} {done : List Nat}
    (enough : id < fuel) (handled : Handled t c b done)
    (fresh : (done ++ t.bulletItems id inFlow).Nodup) :
    Handled t c (BulletClaims.visit t c fuel id inFlow b) (done ++ t.bulletItems id inFlow) := by
  induction fuel generalizing id inFlow b done with
  | zero => omega
  | succ fuel ih =>
    rw [BulletClaims.visit]
    have kids : ((t.kind? id).map NodeKind.children).getD [] = t.childrenOf id := rfl
    rw [kids]
    rw [Tree.bulletItems_eq] at fresh ⊢
    by_cases inside : id < t.size
    · rw [check_of_lt b inside, if_pos inside] at *
      rw [← List.append_assoc] at fresh ⊢
      have same : (!(t.rendersInFlow id inFlow || inFlow) && t.hasBullets id) =
          (!inFlow && t.hasBullets id) := by
        cases bullets : t.hasBullets id
        · simp
        · rw [Tree.rendersInFlow_of_hasBullets bullets]
          simp
      rw [same]
      -- First the items of `id` itself, when it is a sequence with bullets.
      have own : Handled t c (if (!inFlow && t.hasBullets id) = true then
          (t.childrenOf id).foldl (fun b item => BulletClaims.claimSpine t c item b) b else b)
          (done ++ if (!inFlow && t.hasBullets id) = true then t.childrenOf id else []) := by
        split
        · rename_i bullets
          have collection : t.isCollection id = true :=
            Tree.isCollection_of_hasBullets ((Bool.and_eq_true _ _).mp bullets).2
          have distinct := (List.nodup_append.mp fresh).1
          rw [if_pos bullets] at distinct
          apply handled.foldl_claimSpine distinct
          · intro item member
            exact Nat.lt_trans (Tree.lt_of_mem_childrenOf member) inside
          · intro item member
            exact ⟨id, member, collection⟩
        · simpa using handled
      -- Then the walks below each child, one after the other.
      have below : ∀ (kids : List Nat) (b : BulletClaims) (done : List Nat),
          (∀ k ∈ kids, k < id) → Handled t c b done →
          (done ++ kids.flatMap (t.bulletItems · (t.rendersInFlow id inFlow || inFlow))).Nodup →
          Handled t c (kids.foldl (fun b child =>
              BulletClaims.visit t c fuel child (t.rendersInFlow id inFlow || inFlow) b) b)
            (done ++ kids.flatMap (t.bulletItems · (t.rendersInFlow id inFlow || inFlow))) := by
        intro kids
        induction kids with
        | nil => intro b done _ handled _; simpa using handled
        | cons k rest ihk =>
          intro b done lower handled fresh
          rw [List.foldl_cons, List.flatMap_cons, ← List.append_assoc]
          have first := @ih k (t.rendersInFlow id inFlow || inFlow) b done
            (by have := lower k List.mem_cons_self; omega) handled
            (List.nodup_append.mp (by simpa [List.append_assoc] using fresh)).1
          exact ihk _ _ (fun k' member => lower k' (List.mem_cons_of_mem _ member)) first
            (by simpa [List.append_assoc] using fresh)
      exact below _ _ _ (fun k member => Tree.lt_of_mem_childrenOf member) own fresh
    · rw [if_neg inside, Tree.childrenOf_of_le (Nat.le_of_not_lt inside)]
      have none : t.hasBullets id = false := by
        have missing : t.kind? id = none := by
          simp [Tree.kind?, Tree.get?, Array.getElem?_eq_none (Nat.le_of_not_lt inside)]
        simp [Tree.hasBullets, missing]
      simpa [none] using handled.check id t.size

/-- The whole pre-pass handles the bullet items below the root. -/
theorem Handled.collect (shaped : t.TreeShaped) {r : Nat} (root : t.root? = some r) :
    Handled t c (BulletClaims.collect t c) (t.bulletItems r false) := by
  have inside : r < t.size := by
    have := Tree.root_eq root
    omega
  unfold BulletClaims.collect
  rw [root]
  simpa using (Handled.start (t := t) (c := c)).visit (Nat.lt_succ_of_lt inside)
    (by simpa using shaped.bulletItems_nodup r false)

/-! ### The pre-pass stays in bounds -/

/-- The tables of the pre-pass are sized to the tree, and no index has been taken out of
range. -/
structure Sized (t : Tree) (b : BulletClaims) : Prop where
  claimed_size : b.claimed.size = t.size
  hoisted_size : b.hoisted.size = t.size
  unpanicked : b.panicked = none

theorem Sized.start : Sized t (BulletClaims.start t) :=
  ⟨by simp [BulletClaims.start], by simp [BulletClaims.start], rfl⟩

theorem Sized.claim {b : BulletClaims} {i : Nat} (sized : Sized t b) (inside : i < t.size) :
    Sized t (b.claim i) := by
  unfold BulletClaims.claim
  rw [check_of_lt _ (sized.claimed_size ▸ inside)]
  exact ⟨by simp [sized.claimed_size], sized.hoisted_size, sized.unpanicked⟩

theorem Sized.go {fuel cur : Nat} {b : BulletClaims} (acc : List Nat) (sized : Sized t b)
    (inside : cur < t.size) : Sized t (claimSpine.go t c fuel cur b acc).1 := by
  induction fuel generalizing cur b acc with
  | zero => exact sized
  | succ fuel ih =>
    rw [claimSpine.go]
    split
    · exact sized
    have claimed := sized.claim inside
    dsimp only
    rw [check_of_lt _ inside]
    -- every way the walk stops leaves `cur` claimed, or the first key of a mapping too
    split
    · exact claimed
    split
    · exact claimed
    rename_i k found
    split
    · exact claimed
    rename_i first rest kids
    have firstInside : first < t.size :=
      Tree.lt_size_of_mem_children found (kids ▸ List.mem_cons_self)
    split
    · split
      · exact claimed
      · exact claimed.claim firstInside
    · exact ih _ claimed firstInside

theorem Sized.claimSpine {b : BulletClaims} {item : Nat} (sized : Sized t b)
    (inside : item < t.size) : Sized t (BulletClaims.claimSpine t c item b) := by
  unfold BulletClaims.claimSpine
  have walked : Sized t (claimSpine.go t c (t.size + 1) item b []).1 := sized.go [] inside
  generalize claimSpine.go t c (t.size + 1) item b [] = result at walked
  obtain ⟨b', hoisted⟩ := result
  dsimp only at walked ⊢
  rw [check_of_lt _ (walked.hoisted_size ▸ inside)]
  exact ⟨walked.claimed_size, by simp [walked.hoisted_size], walked.unpanicked⟩

theorem Sized.visit {fuel id : Nat} {inFlow : Bool} {b : BulletClaims} (sized : Sized t b)
    (inside : id < t.size) : Sized t (BulletClaims.visit t c fuel id inFlow b) := by
  induction fuel generalizing id inFlow b with
  | zero => exact sized
  | succ fuel ih =>
    rw [BulletClaims.visit, check_of_lt _ inside]
    have kids : ((t.kind? id).map NodeKind.children).getD [] = t.childrenOf id := rfl
    have below : ∀ k ∈ t.childrenOf id, k < t.size := fun k member =>
      Nat.lt_trans (Tree.lt_of_mem_childrenOf member) inside
    rw [kids]
    have items : Sized t (if (!(t.rendersInFlow id inFlow || inFlow) && t.hasBullets id) = true
        then (t.childrenOf id).foldl (fun b item => BulletClaims.claimSpine t c item b) b
        else b) := by
      split
      · exact List.foldlRecOn _ _ sized fun b' sized' item member => sized'.claimSpine (below item member)
      · exact sized
    exact List.foldlRecOn _ _ items fun b' sized' child member => ih sized' (below child member)

/-- However the tree is shared, the pre-pass takes every index it uses within its tables. -/
theorem collect_sized (t : Tree) (c : Comments) : Sized t (BulletClaims.collect t c) := by
  unfold BulletClaims.collect
  split
  · rename_i r root
    have inside : r < t.size := by
      have := Tree.root_eq root
      omega
    exact Sized.start.visit inside
  · exact Sized.start

/-- The hoisted lists of the bullet items below the root hold each claimed node of the walk
with leading comments exactly once. -/
theorem hoisted_perm_walk (shaped : t.TreeShaped) {r : Nat} (root : t.root? = some r) :
    ((t.bulletItems r false).flatMap (collect t c).hoistedOf).Perm
      ((t.preorder r).filter fun y => (collect t c).isClaimed y && hasLeading c y) := by
  have handled := Handled.collect (c := c) shaped root
  refine handled.hoisted_perm.trans ((List.perm_ext_iff_of_nodup (List.nodup_range.filter _)
    ((shaped.preorder_nodup r).filter _)).mpr ?_)
  intro y
  simp only [List.mem_filter, List.mem_range, Bool.and_eq_true]
  constructor
  · rintro ⟨_, claimed, lead⟩
    obtain ⟨item, listed, under⟩ := handled.claimed_below y claimed
    obtain ⟨p, onPath, child, _⟩ := Tree.exists_parent_of_mem_bulletItems listed
    exact ⟨Tree.mem_preorder_trans (Tree.preorder_subset_of_child child y under) onPath,
      claimed, lead⟩
  · rintro ⟨onPath, claimed, lead⟩
    exact ⟨Tree.lt_size_of_mem_preorder onPath, claimed, lead⟩

theorem collect_claimed_child (shaped : t.TreeShaped) {r : Nat} (root : t.root? = some r)
    {y : Nat} (claimed : (collect t c).isClaimed y = true) :
    ∃ p, y ∈ t.childrenOf p ∧ t.isCollection p = true :=
  (Handled.collect shaped root).claimed_child y claimed

end BulletClaims

end AnnotatedYaml
