import AnnotatedYaml.Proofs.Layout.Checks
import AnnotatedYaml.Proofs.Layout.WrittenOnce

/-! When writing a tree fails: a document or a stream met below the top, or a malformed comment that
writing owes. -/

namespace AnnotatedYaml

namespace Tree

variable (t : Tree)

def isDocument (i : Nat) : Bool :=
  match t.kind? i with
  | some (.document _) => true
  | _ => false

/-- Whether node `p` holds its child `y` where `y` cannot stand: a stream lists a node that is
no document, or a document, a mapping or a sequence holds a document or a stream. -/
def misplaced (p y : Nat) : Bool :=
  match t.kind? p with
  | some (.stream _) => !t.isDocument y
  | some _ => t.isDocumentLevel y
  | none => false

/-- Some node at or below `y` holds a child where it cannot stand. -/
def MisplacedBelow (y : Nat) : Prop :=
  ∃ p ∈ t.preorder y, ∃ z ∈ t.childrenOf p, t.misplaced p z = true

/-- Writing `y` as a value fails on the shape of the tree: `y` is a document or a stream, or
a node below it is misplaced. -/
def BadValue (y : Nat) : Prop := t.isDocumentLevel y = true ∨ t.MisplacedBelow y

/-- A node on the walk from the root holds a child where it cannot stand. -/
def HasMisplacedNode : Prop := ∃ p ∈ t.walk, ∃ y ∈ t.childrenOf p, t.misplaced p y = true

variable {t}

theorem misplacedBelow_iff {y : Nat} (inside : y < t.size) :
    t.MisplacedBelow y ↔ ∃ z ∈ t.childrenOf y, t.misplaced y z = true ∨ t.MisplacedBelow z := by
  unfold MisplacedBelow
  rw [preorder_eq, if_pos inside]
  simp only [List.mem_cons, List.mem_flatMap, exists_eq_or_imp]
  constructor
  · rintro (⟨z, child, wrong⟩ | ⟨p, ⟨k, child, below⟩, z, held, wrong⟩)
    · exact ⟨z, child, .inl wrong⟩
    · exact ⟨k, child, .inr ⟨p, below, z, held, wrong⟩⟩
  · rintro ⟨z, child, wrong | ⟨p, below, x, held, wrong⟩⟩
    · exact .inl ⟨z, child, wrong⟩
    · exact .inr ⟨p, ⟨z, child, below⟩, x, held, wrong⟩

/-- Below a value that is a mapping, a sequence, a scalar or an alias, writing fails on the
shape of the tree exactly when it fails below one of its children. -/
theorem badValue_iff {y : Nat} {k : NodeKind} (found : t.kind? y = some k)
    (value : t.isDocumentLevel y = false) :
    t.BadValue y ↔ ∃ j ∈ k.children, t.BadValue j := by
  have held : ∀ z, t.misplaced y z = t.isDocumentLevel z := by
    intro z
    unfold isDocumentLevel at value
    unfold misplaced
    rw [found] at value ⊢
    cases k <;> simp_all
  have kids : t.childrenOf y = k.children := by simp [childrenOf, found]
  unfold BadValue
  rw [misplacedBelow_iff (lt_size_of_kind? found), value, kids]
  simp [held]

theorem misplacedBelow_document {y : Nat} {d : Document}
    (found : t.kind? y = some (.document d)) : t.MisplacedBelow y ↔ t.BadValue d.root := by
  have held : ∀ z, t.misplaced y z = t.isDocumentLevel z := by
    intro z
    simp [misplaced, found]
  rw [misplacedBelow_iff (lt_size_of_kind? found)]
  simp [childrenOf, found, NodeKind.children, held, BadValue]

/-- A stream's subtree is misplaced exactly when it lists a node that is no document, or one of
its documents is misplaced. -/
theorem misplacedBelow_stream {y : Nat} {docs : List Nat}
    (found : t.kind? y = some (.stream docs)) :
    t.MisplacedBelow y ↔ ∃ doc ∈ docs, t.isDocument doc = false ∨ t.MisplacedBelow doc := by
  have held : ∀ z, t.misplaced y z = !t.isDocument z := by
    intro z
    simp [misplaced, found]
  rw [misplacedBelow_iff (lt_size_of_kind? found)]
  simp [childrenOf, found, NodeKind.children, held]

theorem not_badValue_of_isBareNull {c : Comments} {v : Nat} (bare : t.isBareNull c v = true) :
    ¬t.BadValue v := by
  unfold isBareNull at bare
  split at bare
  · rename_i s found
    rw [badValue_iff found (by simp [isDocumentLevel, found])]
    simp [NodeKind.children]
  · cases bare

theorem badValue_iff_misplacedBelow {y : Nat} (value : t.isDocumentLevel y = false) :
    t.BadValue y ↔ t.MisplacedBelow y := by
  simp [BadValue, value]

theorem hasMisplacedNode_iff {r : Nat} (root : t.root? = some r) :
    t.HasMisplacedNode ↔ t.MisplacedBelow r := by
  simp [HasMisplacedNode, MisplacedBelow, walk_eq_preorder, root]

end Tree

theorem exists_pairsOf_iff (P : Nat → Prop) {kids : List Nat} (even : kids.length % 2 = 0) :
    (∃ p ∈ pairsOf kids, P p.1 ∨ P p.2) ↔ ∃ k ∈ kids, P k := by
  induction kids using pairsOf.induct with
  | case1 k v rest ih =>
    simp only [List.length_cons] at even
    simp only [pairsOf, List.mem_cons, exists_eq_or_imp, ih (by omega), or_assoc]
  | case2 kids notPair =>
    -- With an even number of children, a list that is no pair in front is empty.
    rcases kids with _ | ⟨k, _ | ⟨v, rest⟩⟩
    · simp [pairsOf]
    · simp at even
    · exact absurd rfl (notPair k v rest)

theorem exists_mem_zipIdx {α : Type} (P : α → Prop) (xs : List α) :
    (∃ p ∈ xs.zipIdx, P p.1) ↔ ∃ x ∈ xs, P x := by
  constructor
  · rintro ⟨p, member, holds⟩
    exact ⟨p.1, List.fst_mem_of_mem_zipIdx member, holds⟩
  · rintro ⟨x, member, holds⟩
    rw [← List.zipIdx_map_fst 0 xs, List.mem_map] at member
    obtain ⟨p, member, rfl⟩ := member
    exact ⟨p, member, holds⟩

namespace Emit

section

variable {t : Tree} {c : Comments} {claims : BulletClaims}

theorem Checks.separated {β : Type} {m : Emit β} {post : β → Prop} {bad : Prop}
    {M : Multiset String} (i depth : Nat) (item : Checks m post bad M) :
    Checks (if i > 0 then do Emit.out (·.write depth ","); Emit.out (·.space); m else m)
      post bad M :=
  Checks.ite (fun _ => Checks.afterOut _ (Checks.afterOut _ item)) (fun _ => item)

theorem flowSequence_checks (G id : Nat) (kids : List Nat) (frame : Frame)
    (items : ∀ k ∈ kids, ∀ inner : Frame, Checks (node t c claims G k inner) (fun _ => True)
      (t.BadValue k) (owedBelow t c claims k inner.flow)) :
    Checks (flowSequence t c claims (G + 1) id kids frame) (fun _ => True)
      (∃ k ∈ kids, t.BadValue k)
      ((kids.map (owedBelow t c claims · true)).sum +
        trimmed ((c.lineEnd id).toList ++ c.trailing id)) := by
  rw [flowSequence]
  apply Checks.afterOut
  apply Checks.seq (Checks.forIn (P := fun p => t.BadValue p.1)
    (M := (owedBelow t c claims · true) ∘ Prod.fst) _ _ ?step)
  case step =>
    rintro ⟨child, i⟩ member _
    have inKids : child ∈ kids := List.fst_mem_of_mem_zipIdx member
    exact Checks.separated i (frame.depth + 1) ((items child inKids _).thenYield ())
  · intro _ _
    exact Checks.afterOut _ (inlineEnd_checks c id frame)
  · rw [or_false]
    exact propext (exists_mem_zipIdx (t.BadValue ·) kids)
  · rw [← List.map_map, List.zipIdx_map_fst]

theorem flowMapping_checks (G id : Nat) (kids : List Nat) (frame : Frame)
    (paired : kids.length % 2 = 0) (inside : ∀ k ∈ kids, k < t.size)
    (items : ∀ k ∈ kids, ∀ inner : Frame, Checks (node t c claims G k inner) (fun _ => True)
      (t.BadValue k) (owedBelow t c claims k inner.flow)) :
    Checks (flowMapping t c claims (G + 1) id kids frame) (fun _ => True)
      (∃ k ∈ kids, t.BadValue k)
      ((kids.map (owedBelow t c claims · true)).sum +
        trimmed ((c.lineEnd id).toList ++ c.trailing id)) := by
  rw [flowMapping]
  apply Checks.afterOut
  apply Checks.seq (Checks.forIn (P := fun p => t.BadValue p.1.1 ∨ t.BadValue p.1.2)
    (M := (fun p => owedBelow t c claims p.1 true + owedBelow t c claims p.2 true) ∘ Prod.fst)
    _ _ ?step)
  case step =>
    rintro ⟨⟨key, value⟩, i⟩ member _
    obtain ⟨inKey, inValue⟩ := mem_of_mem_pairsOf (List.fst_mem_of_mem_zipIdx member)
    apply Checks.separated i (frame.depth + 1)
    apply Checks.bind (items key inKey _)
    intro _ _
    apply Checks.afterLookup (inside value inValue)
    -- A bare null value is left out; it owes nothing and nothing below it is misplaced.
    apply Checks.ite
    · intro _
      exact Checks.afterLookup (inside key inKey) (Checks.optionalOut _ (Checks.afterOut _
        (Checks.afterOut _ ((items value inValue
          { frame with depth := frame.depth + 1, flow := true }).thenYield ()))))
    · intro bare
      rw [Bool.not_eq_true, Bool.not_eq_false'] at bare
      rw [owedBelow_of_isBareNull bare]
      exact (Checks.yield _).mono (fun _ holds => holds)
        (iff_false_intro (Tree.not_badValue_of_isBareNull bare)).symm rfl
  · intro _ _
    exact Checks.afterOut _ (inlineEnd_checks c id frame)
  · rw [or_false]
    exact propext ((exists_mem_zipIdx (fun p : Nat × Nat => t.BadValue p.1 ∨ t.BadValue p.2)
      _).trans
      (exists_pairsOf_iff (t.BadValue ·) paired))
  · rw [← List.map_map, List.zipIdx_map_fst,
      sum_map_pairsOf (owedBelow t c claims · true) kids paired]

theorem blockSequence_checks (G id : Nat) (kids : List Nat) (frame : Frame)
    (items : ∀ k ∈ kids, ∀ inner : Frame, Checks (node t c claims G k inner) (fun _ => True)
      (t.BadValue k) (owedBelow t c claims k inner.flow)) :
    Checks (blockSequence t c claims (G + 1) id kids frame) (fun _ => True)
      (∃ k ∈ kids, t.BadValue k)
      ((kids.map fun k =>
          trimmed ((claims.hoistedOf k).flatMap c.leading) + owedBelow t c claims k frame.flow).sum +
        trimmed ((c.lineEnd id).toList ++ c.trailing id)) := by
  rw [blockSequence]
  apply Checks.afterOut
  apply Checks.seq (Checks.forIn (P := t.BadValue) (M := fun k =>
      trimmed ((claims.hoistedOf k).flatMap c.leading) + owedBelow t c claims k frame.flow)
    _ _ ?step)
  case step =>
    intro item member _
    apply Checks.seq (Checks.forIn (P := fun _ => False) (M := fun h => trimmed (c.leading h))
      _ _ ?hoisted)
    case hoisted =>
      intro h _ _
      exact (comments_checks h frame.depth (c.leading h)).thenYield ()
    · intro _ _
      apply Checks.afterOut
      apply Checks.bind (items item member _)
      intro _ _
      exact Checks.afterOut _ (Checks.afterOut _ ((Checks.unit ()).thenYield ()))
    · simp
    · rw [trimmed_flatMap, add_zero]
  · intro _ _
    exact blockEnd_checks c id frame.depth
  · exact or_false _
  · rfl

theorem leading_checks {α : Type} (id depth : Nat) {m : Emit α} {post : α → Prop} {bad : Prop}
    {M : Multiset String} (rest : Checks m post bad M) :
    Checks (if (!claims.isClaimed id) = true then comments id depth (c.leading id) >>= fun _ => m
      else m) post bad (leadOwed c claims id + M) := by
  unfold leadOwed
  by_cases claimed : claims.isClaimed id = true
  · simp only [claimed, Bool.not_true, Bool.false_eq_true, if_false, if_true, zero_add]
    exact rest
  · simp only [claimed, Bool.not_false, if_true]
    exact Checks.seq (comments_checks id depth (c.leading id)) (fun _ _ => rest) (false_or bad) rfl

theorem node_checks (G id : Nat) (frame : Frame) (inside : id < t.size) {bad : Prop}
    (rest : Checks (content t c claims G id frame) (fun _ => True) bad
      (contentOwed t c claims id frame.flow)) :
    Checks (node t c claims (G + 1) id frame) (fun _ => True) bad
      (owedBelow t c claims id frame.flow) := by
  rw [node, owedBelow_eq inside]
  exact leading_checks id frame.depth rest

theorem explicitEntry_checks (G key value : Nat) (frame : Frame)
    (parts : ∀ n ∈ [key, value], ∀ inner : Frame, Checks (content t c claims G n inner)
      (fun _ => True) (t.BadValue n) (contentOwed t c claims n inner.flow)) :
    Checks (explicitEntry t c claims (G + 1) key value frame) (fun _ => True)
      (t.BadValue key ∨ t.BadValue value)
      (leadOwed c claims key + contentOwed t c claims key frame.flow +
        (leadOwed c claims value + contentOwed t c claims value frame.flow)) := by
  rw [explicitEntry]
  apply Checks.seq (Checks.forIn (P := fun p => t.BadValue p.2)
    (M := fun p => leadOwed c claims p.2 + contentOwed t c claims p.2 frame.flow) _ _ ?step)
    (fun _ _ => Checks.unit ())
  case step =>
    rintro ⟨indicator, n⟩ member _
    have inParts : n ∈ [key, value] := by
      simp only [List.mem_cons, Prod.mk.injEq, List.not_mem_nil, or_false] at member
      rcases member with ⟨-, rfl⟩ | ⟨-, rfl⟩ <;> simp
    apply Checks.afterOut
    apply leading_checks n frame.depth
    apply Checks.afterOut
    apply Checks.seq (parts n inParts _)
    · intro _ _
      exact Checks.afterOut _ ((Checks.unit ()).thenYield ())
    · exact or_false _
    · exact add_zero _
  · simp
  · simp

theorem mappingValue_checks (G value : Nat) (frame : Frame) (inside : value < t.size)
    (item : ∀ inner : Frame, Checks (node t c claims G value inner) (fun _ => True)
      (t.BadValue value) (owedBelow t c claims value inner.flow)) :
    Checks (mappingValue t c claims (G + 1) value frame) (fun _ => True) (t.BadValue value)
      (owedBelow t c claims value frame.flow) := by
  rw [mappingValue]
  apply Checks.afterLookup inside
  apply Checks.ite
  · intro _
    exact item frame
  · intro _
    exact Checks.optionalOut _ (item _)

theorem blockMapping_checks (G id : Nat) (kids : List Nat) (frame : Frame)
    (paired : kids.length % 2 = 0) (inside : ∀ k ∈ kids, k < t.size)
    (keys : ∀ k ∈ kids, ∀ inner : Frame, Checks (node t c claims (G + 1) k inner)
      (fun _ => True) (t.BadValue k) (owedBelow t c claims k inner.flow))
    (values : ∀ k ∈ kids, ∀ inner : Frame, Checks (node t c claims G k inner)
      (fun _ => True) (t.BadValue k) (owedBelow t c claims k inner.flow))
    (parts : ∀ k ∈ kids, ∀ inner : Frame, Checks (content t c claims G k inner)
      (fun _ => True) (t.BadValue k) (contentOwed t c claims k inner.flow)) :
    Checks (blockMapping t c claims (G + 2) id kids frame) (fun _ => True)
      (∃ k ∈ kids, t.BadValue k)
      ((kids.map (owedBelow t c claims · frame.flow)).sum +
        trimmed ((c.lineEnd id).toList ++ c.trailing id)) := by
  rw [blockMapping]
  apply Checks.afterOut
  apply Checks.seq (Checks.forIn (P := fun p => t.BadValue p.1 ∨ t.BadValue p.2) (M := fun p =>
      owedBelow t c claims p.1 frame.flow + owedBelow t c claims p.2 frame.flow) _ _ ?step)
  case step =>
    rintro ⟨key, value⟩ member _
    obtain ⟨inKey, inValue⟩ := mem_of_mem_pairsOf member
    have ending : Checks (Emit.out (·.newline) >>= fun _ => Pure.pure (ForInStep.yield PUnit.unit))
        (fun r => ∃ s', r = .yield s') False 0 :=
      Checks.afterOut _ (Checks.yield _)
    apply Checks.afterLookup (inside key inKey)
    apply Checks.ite
    · intro _
      rw [owedBelow_eq (inside key inKey), owedBelow_eq (inside value inValue)]
      refine Checks.seq (explicitEntry_checks G key value _ ?parts) (fun _ _ => ending)
        (or_false _) (add_zero _)
      case parts =>
        intro n member inner
        simp only [List.mem_cons, List.not_mem_nil, or_false] at member
        rcases member with rfl | rfl
        · exact parts n inKey inner
        · exact parts n inValue inner
    · intro _
      apply Checks.bind (keys key inKey _)
      intro _ _
      apply Checks.afterLookup (inside key inKey)
      apply Checks.optionalOut
      exact Checks.afterOut _ (Checks.afterOut _ (Checks.seq
        (mappingValue_checks G value _ (inside value inValue) (values value inValue))
        (fun _ _ => ending)
          (or_false _) (add_zero _)))
  · intro _ _
    exact blockEnd_checks c id frame.depth
  · rw [or_false]
    exact propext (exists_pairsOf_iff (t.BadValue ·) paired)
  · rw [sum_map_pairsOf (owedBelow t c claims · frame.flow) kids paired]

end

section

variable {t : Tree} {c : Comments} {claims : BulletClaims}

/-- With enough fuel, writing the content of a node fails exactly when the node is a document
or a stream, or something below it is misplaced, or a comment it owes is malformed. -/
theorem content_checks (paired : t.PairsChildren) (id : Nat) (inside : id < t.size) (F : Nat)
    (frame : Frame) (enough : 4 * id + 4 ≤ F) :
    Checks (content t c claims F id frame) (fun _ => True) (t.BadValue id)
      (contentOwed t c claims id frame.flow) := by
  induction id using Nat.strongRecOn generalizing F frame with
  | ind id ih =>
  obtain ⟨k, found⟩ := Tree.exists_kind? inside
  have kids : t.childrenOf id = k.children := by simp [Tree.childrenOf, found]
  have below : ∀ j ∈ k.children, j < id := fun j member =>
    Tree.lt_of_mem_childrenOf (kids ▸ member)
  have within : ∀ j ∈ k.children, j < t.size := fun j member =>
    Nat.lt_trans (below j member) inside
  -- As for the record of comments, the induction is on the node, with four units of fuel
  -- spent from a node to the nodes below it.
  have parts : ∀ G, 4 * id ≤ G → ∀ j ∈ k.children, ∀ inner : Frame,
      Checks (content t c claims G j inner) (fun _ => True) (t.BadValue j)
        (contentOwed t c claims j inner.flow) :=
    fun G more j member inner =>
      have lower := below j member
      ih j lower (by omega) G inner (by omega)
  have nodes : ∀ G, 4 * id + 1 ≤ G → ∀ j ∈ k.children, ∀ inner : Frame,
      Checks (node t c claims G j inner) (fun _ => True) (t.BadValue j)
        (owedBelow t c claims j inner.flow) := by
    intro G more j member inner
    obtain ⟨G, rfl⟩ : ∃ G', G = G' + 1 := ⟨G - 1, by omega⟩
    have lower := below j member
    exact node_checks G j inner (by omega) (parts G (by omega) j member inner)
  obtain ⟨G, rfl⟩ : ∃ G, F = G + 4 := ⟨F - 4, by omega⟩
  rw [content, found]
  refine Checks.afterLookup inside (Checks.afterOut _ (Checks.seq (properties_checks k frame) (fun _ _ => ?_)
    (false_or _) (zero_add _)))
  -- A document or a stream is refused as a value; any other node fails below its children.
  cases k with
  | scalar s =>
    rw [contentOwed_eq found (by simp [Tree.isDocumentLevel, found]),
      hoistedAt_of_not_hasBullets (by simp [Tree.hasBullets, found]),
      Tree.badValue_iff found (by simp [Tree.isDocumentLevel, found])]
    exact (scalar_checks c id s frame).mono (fun _ _ => trivial) (by simp [NodeKind.children])
      (by simp [NodeKind.children])
  | «alias» name =>
    rw [contentOwed_eq found (by simp [Tree.isDocumentLevel, found]),
      hoistedAt_of_not_hasBullets (by simp [Tree.hasBullets, found]),
      Tree.badValue_iff found (by simp [Tree.isDocumentLevel, found])]
    exact (Checks.afterOut _ (inlineEnd_checks c id frame)).mono (fun _ _ => trivial)
      (by simp [NodeKind.children]) (by simp [NodeKind.children])
  | mapping col =>
    rw [contentOwed_eq found (by simp [Tree.isDocumentLevel, found]),
      hoistedAt_of_not_hasBullets (by simp [Tree.hasBullets, found]), add_zero,
      Tree.badValue_iff found (by simp [Tree.isDocumentLevel, found])]
    have even := paired id col found
    apply Checks.ite
    · intro flow
      rw [flow, Bool.true_or]
      exact (flowMapping_checks (G + 2) id col.children frame even within
        (nodes _ (by omega))).mono
        (fun _ _ => trivial) Iff.rfl (add_comm _ _)
    · intro block
      rw [Bool.not_eq_true] at block
      rw [block, Bool.false_or]
      exact (blockMapping_checks (G + 1) id col.children frame even within
        (nodes _ (by omega)) (nodes _ (by omega)) (parts _ (by omega))).mono
        (fun _ _ => trivial) Iff.rfl (add_comm _ _)
  | sequence col =>
    rw [contentOwed_eq found (by simp [Tree.isDocumentLevel, found]),
      Tree.badValue_iff found (by simp [Tree.isDocumentLevel, found])]
    apply Checks.ite
    · intro flow
      rw [hoistedAt_of_rendersInFlow flow, flow, Bool.true_or, add_zero]
      exact (flowSequence_checks (G + 2) id col.children frame (nodes _ (by omega))).mono
        (fun _ _ => trivial) Iff.rfl (add_comm _ _)
    · intro block
      rw [Bool.not_eq_true] at block
      obtain ⟨bullets, outside⟩ := hasBullets_of_not_rendersInFlow found block
      rw [block, Bool.false_or, hoistedAt, if_pos (by simp [outside, bullets]), kids]
      refine (blockSequence_checks (G + 2) id col.children frame (nodes _ (by omega))).mono
        (fun _ _ => trivial) Iff.rfl ?_
      rw [List.sum_map_add, trimmed_flatMap]
      ac_rfl
  | document d =>
    exact Checks.unexpected _ _ _ _
      (.inl (by simp [Tree.isDocumentLevel, found])) _
  | stream docs =>
    exact Checks.unexpected _ _ _ _
      (.inl (by simp [Tree.isDocumentLevel, found])) _

theorem node_fails (paired : t.PairsChildren) (id : Nat) (inside : id < t.size) (F : Nat)
    (frame : Frame) (enough : 4 * id + 5 ≤ F) :
    Checks (node t c claims F id frame) (fun _ => True) (t.BadValue id)
      (owedBelow t c claims id frame.flow) := by
  obtain ⟨G, rfl⟩ : ∃ G, F = G + 1 := ⟨F - 1, by omega⟩
  exact node_checks G id frame inside (content_checks paired id inside G frame (by omega))

theorem document_checks (fuel id : Nat) (d : Document) (followsOpen nextHasDirectives : Bool)
    {bad : Prop} {M : Multiset String}
    (below : Checks (node t c claims fuel d.root (Frame.top (TagScope.forDocument d.tagDirectives)))
      (fun _ => True) bad M) :
    Checks (document t c claims fuel id d followsOpen nextHasDirectives) (fun _ => True) bad
      (trimmed (c.leading id) + M + trimmed (c.trailing id)) := by
  rw [document]
  apply Checks.seq (comments_checks id 0 (c.leading id))
  · intro _ _
    apply Checks.seq (documentStart_checks c d followsOpen)
    · intro _ _
      apply Checks.seq below
      · intro _ _
        apply Checks.afterOut
        dsimp only
        have closing := Checks.seq (comments_checks id 0 (c.trailing id))
          (fun _ _ => Checks.unit (!d.implicitEnd || nextHasDirectives)) (or_self False)
          (add_zero _)
        exact Checks.ite (fun _ => Checks.afterOut _ (Checks.afterOut _ closing))
          (fun _ => closing)
      · exact or_false bad
      · rfl
    · exact false_or bad
    · rfl
  · exact false_or bad
  · simp [add_assoc]

theorem stream_checks (fuel id : Nat) (docs : List Nat) (bad : Nat → Prop)
    (D : Nat → Multiset String) (inside : ∀ docId ∈ docs, docId < t.size)
    (each : ∀ docId ∈ docs, (∀ d, t.kind? docId = some (.document d) →
        ∀ followsOpen nextHasDirectives,
          Checks (document t c claims fuel docId d followsOpen nextHasDirectives) (fun _ => True)
            (bad docId) (D docId)) ∧
      (t.isDocument docId = false → bad docId)) :
    Checks (stream t c claims fuel id docs) (fun _ => True) (∃ docId ∈ docs, bad docId)
      (trimmed (c.leading id) + (docs.map D).sum + trimmed (c.trailing id)) := by
  rw [stream]
  apply Checks.seq (comments_checks id 0 (c.leading id))
  · intro _ _
    apply Checks.seq (Checks.forIn (P := bad ∘ Prod.fst) (M := D ∘ Prod.fst) _ _ ?step)
    case step =>
      rintro ⟨docId, i⟩ member followsOpen
      have listedIn := List.fst_mem_of_mem_zipIdx member
      have listed := each docId listedIn
      dsimp only
      apply Checks.afterLookup (inside docId listedIn)
      split
      · rename_i d found
        have ahead : ∀ n ∈ docs[i + 1]?, n < t.size := fun n found =>
          inside n (List.mem_of_getElem? found)
        exact Checks.seq (nextHasDirectives_checks ahead) (fun _ _ => Checks.seq
          (listed.1 d found _ _) (fun _ _ => Checks.yield _) (or_false _) (add_zero _))
          (false_or _) (zero_add _)
      · rename_i notDocument
        have other : t.isDocument docId = false := by
          unfold Tree.isDocument
          split
          · rename_i d found
            exact absurd found (notDocument d)
          · rfl
        exact Checks.unexpected _ _ _ _ (listed.2 other) _
    · intro _ _
      exact comments_checks id 0 (c.trailing id)
    · exact or_false _
    · rfl
  · rw [false_or]
    exact propext (exists_mem_zipIdx bad docs)
  · rw [← List.map_map, List.zipIdx_map_fst, add_assoc]

/-- A document that no bullet claims fails exactly when writing its root as a value fails on
the shape of the tree, or a comment it owes is malformed. -/
theorem document_fails (paired : t.PairsChildren) {y : Nat} {d : Document}
    (found : t.kind? y = some (.document d)) (unclaimed : claims.isClaimed y = false)
    (fuel : Nat) (enough : 4 * y + 1 ≤ fuel) (followsOpen nextHasDirectives : Bool) :
    Checks (document t c claims fuel y d followsOpen nextHasDirectives) (fun _ => True)
      (t.MisplacedBelow y) (owedBelow t c claims y false) := by
  have inside := Tree.lt_size_of_kind? found
  have member : d.root ∈ t.childrenOf y := by simp [Tree.childrenOf, found, NodeKind.children]
  have below := Tree.lt_of_mem_childrenOf member
  rw [owedBelow_of_isDocumentLevel found (by simp [Tree.isDocumentLevel, found]) unclaimed,
    Tree.misplacedBelow_document found]
  simp only [NodeKind.children, List.map_cons, List.map_nil, List.sum_cons, List.sum_nil,
    add_zero]
  exact document_checks _ _ d _ _ (node_fails paired d.root (by omega) _ _ (by omega))

end

section

variable {t : Tree} {c : Comments}

/-- Writing from the root fails exactly when something below the root is misplaced or a
comment that the root owes is malformed. -/
theorem root_checks (shaped : t.TreeShaped) (paired : t.PairsChildren) {r : Nat}
    (root : t.root? = some r) :
    Checks (Emit.root t c (BulletClaims.collect t c) (8 * (t.size + 1)) r) (fun _ => True)
      (t.MisplacedBelow r) (owedBelow t c (BulletClaims.collect t c) r false) := by
  have inside : r < t.size := by have := Tree.root_eq root; omega
  obtain ⟨k, found⟩ := Tree.exists_kind? inside
  rw [Emit.root]
  apply Checks.afterLookup inside
  rw [found]
  cases k
  case stream docs =>
    rw [owedBelow_of_isDocumentLevel found (by simp [Tree.isDocumentLevel, found])
      (collect_not_claimed_root shaped root), Tree.misplacedBelow_stream found]
    apply stream_checks
    · exact fun docId member => Tree.lt_size_of_mem_children found member
    intro docId member
    have child : docId ∈ t.childrenOf r := by
      simpa [Tree.childrenOf, found, NodeKind.children] using member
    have below := Tree.lt_of_mem_childrenOf child
    refine ⟨fun d isDocument _ _ => ?_, fun other => .inl other⟩
    -- A document of the stream is a child of a node that is no collection.
    have unclaimed := collect_not_claimed_child (c := c) shaped root child
      (by simp [Tree.isCollection, found, NodeKind.collection?])
    have listed : t.isDocument docId = true := by simp [Tree.isDocument, isDocument]
    exact (document_fails paired isDocument unclaimed _ (by omega) _ _).mono
      (fun _ _ => trivial) (by simp [listed]) rfl
  case document d =>
    exact Checks.seq (document_fails paired found (collect_not_claimed_root shaped root) _
      (by omega) false false) (fun _ _ => Checks.unit ()) (or_false _) (add_zero _)
  -- Any other root is written as a value, then the last line is ended.
  all_goals
    dsimp only
    rw [← propext (Tree.badValue_iff_misplacedBelow (by simp [Tree.isDocumentLevel, found]))]
    exact Checks.seq (node_fails paired r inside _ _ (by omega)) (fun _ _ => Checks.out _)
      (or_false _) (add_zero _)

end

end Emit

/-- A comment that writing the tree owes is malformed: white space cut from its front, it does
not start with `#` or does not fit on one line. -/
def AnnotatedTree.HasMalformedComment (a : AnnotatedTree) : Prop :=
  ∃ y ∈ a.tree.walk, ∃ line ∈ a.comments.owed a.tree y, ¬IsCommentLine (Text.trimStart line)

/-- The comments owed from the root are those of the walk, so one of them is malformed exactly
when the tree has a malformed comment. -/
theorem exists_malformed_owedBelow_iff {a : AnnotatedTree} (shaped : a.tree.TreeShaped)
    {r : Nat} (root : a.tree.root? = some r) :
    (∃ x ∈ Emit.owedBelow a.tree a.comments (BulletClaims.collect a.tree a.comments) r false,
      ¬IsCommentLine x) ↔ a.HasMalformedComment := by
  rw [Emit.owedBelow_root shaped root]
  simp only [trimmed, Multiset.mem_coe, List.mem_map, List.mem_flatMap,
    AnnotatedTree.HasMalformedComment]
  constructor
  · rintro ⟨x, ⟨line, ⟨y, onWalk, owed⟩, rfl⟩, wrong⟩
    exact ⟨y, onWalk, line, owed, wrong⟩
  · rintro ⟨y, onWalk, line, owed, wrong⟩
    exact ⟨Text.trimStart line, ⟨line, ⟨y, onWalk, owed⟩, rfl⟩, wrong⟩

/-- Writing a tree built by `push`, whose arena is tree-shaped, fails exactly when a node on
the walk from the root holds a child where it cannot stand or a comment that writing owes is
malformed. An unexpected node is reported only in the first case and a malformed comment only
in the second, so each is the error whenever the other cause is absent. An empty tree is
written as the empty text. -/
theorem render_fails_iff_misplaced_or_malformed (a : AnnotatedTree) (indent : IndentWidth)
    (built : a.tree.Built) (shaped : a.tree.TreeShaped) :
    ((∃ e, a.render indent = .error e) ↔ a.tree.HasMisplacedNode ∨ a.HasMalformedComment) ∧
    (∀ e, a.render indent = .error e →
      (e.isUnexpectedNode ∧ a.tree.HasMisplacedNode) ∨
        (e.isMalformedComment ∧ a.HasMalformedComment)) ∧
    (a.tree.root? = none → a.render indent = .ok "") := by
  unfold AnnotatedTree.render AnnotatedTree.write
  cases root : a.tree.root? with
  | none =>
    have empty : a.tree.walk = [] := by simp [Tree.walk_eq_preorder, root]
    simp [Tree.HasMisplacedNode, AnnotatedTree.HasMalformedComment, empty, Except.map]
    rfl
  | some r =>
    have checks := Emit.root_checks (c := a.comments) shaped built.pairsChildren root
    rw [Tree.hasMisplacedNode_iff root, ← exists_malformed_owedBelow_iff shaped root]
    dsimp only
    cases ran : (Emit.root a.tree a.comments (BulletClaims.collect a.tree a.comments)
        (8 * (a.tree.size + 1)) r).run { unit := indent.width } with
    | ok res =>
      obtain ⟨-, fine, written⟩ := Hoare.ok_of checks trivial ran
      simp [Except.map, fine]
      exact written
    | error e =>
      have failed := Hoare.error_of checks trivial ran
      simp only [Except.map, Except.error.injEq, exists_eq', true_iff, forall_eq', reduceCtorEq,
        imp_false, not_false_eq_true, and_true]
      exact ⟨failed.imp (fun kind => kind.2) (fun kind => kind.2), failed⟩

/-- A sequence of `a` and an empty stream, the scalar under a text that is no comment: both
causes at once; the comment, hoisted in front of the first bullet, is refused first. -/
def misplacedSampleNodes : List Node :=
  [{ kind := .scalar { value := "a" } }, { kind := .stream [] },
    { kind := .sequence { children := [0, 1] } }]

def misplacedSample : AnnotatedTree :=
  let comments : Comments := { slots := #[{ leading := ["not a comment"] }, {}, {}] }
  match Tree.empty.pushAll misplacedSampleNodes with
  | .ok t => ⟨t, comments⟩
  | .error _ => ⟨Tree.empty, comments⟩

theorem misplacedSample_refused :
    misplacedSample.tree.Built ∧ misplacedSample.tree.TreeShaped ∧
      misplacedSample.render IndentWidth.standard =
        .error (.malformedComment 0 "not a comment") ∧
      (misplacedSample.tree.HasMisplacedNode ∨ misplacedSample.HasMalformedComment) :=
  have built : misplacedSample.tree.Built :=
    @Tree.Built.pushAll _ _ misplacedSampleNodes Tree.Built.empty rfl
  have shaped : misplacedSample.tree.TreeShaped := by decide
  have rendered : misplacedSample.render IndentWidth.standard =
      .error (.malformedComment 0 "not a comment") := by decide +kernel
  ⟨built, shaped, rendered,
    (render_fails_iff_misplaced_or_malformed misplacedSample IndentWidth.standard built
      shaped).1.mp ⟨_, rendered⟩⟩

end AnnotatedYaml
