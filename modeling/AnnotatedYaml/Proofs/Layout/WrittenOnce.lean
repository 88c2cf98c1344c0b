import AnnotatedYaml.Proofs.Layout.Claims
import AnnotatedYaml.Proofs.Layout.Log

/-! Writing a tree prints every stored comment once. -/

namespace AnnotatedYaml

def Tree.isDocumentLevel (t : Tree) (i : Nat) : Bool :=
  match t.kind? i with
  | some (.document _) | some (.stream _) => true
  | _ => false

/-- The comments of node `i` that writing owes: all of them, but the line-end comment of a
document or a stream. -/
def Comments.owed (c : Comments) (t : Tree) (i : Nat) : List String :=
  c.leading i ++ (if t.isDocumentLevel i then [] else (c.lineEnd i).toList) ++ c.trailing i

theorem trimmed_flatMap {α : Type} (xs : List α) (f : α → List String) :
    trimmed (xs.flatMap f) = (xs.map fun x => trimmed (f x)).sum := by
  induction xs with
  | nil => rfl
  | cons x rest ih => simp [ih]

theorem sum_map_flatMap {α β : Type} (xs : List α) (f : α → List β)
    (g : β → Multiset String) :
    ((xs.flatMap f).map g).sum = (xs.map fun x => ((f x).map g).sum).sum := by
  induction xs with
  | nil => rfl
  | cons x rest ih => simp [ih]

theorem sum_map_pairsOf (f : Nat → Multiset String) (kids : List Nat)
    (even : kids.length % 2 = 0) :
    ((pairsOf kids).map fun p => f p.1 + f p.2).sum = (kids.map f).sum := by
  induction kids using pairsOf.induct with
  | case1 k v rest ih =>
    simp only [pairsOf, List.map_cons, List.sum_cons, List.length_cons] at even ⊢
    rw [ih (by omega), add_assoc]
  | case2 kids notPair =>
    match kids, notPair with
    | [], _ => rfl
    | [k], _ => simp at even
    | k :: v :: rest, notPair => exact absurd rfl (notPair k v rest)

theorem mem_of_mem_pairsOf {kids : List Nat} {key value : Nat}
    (member : (key, value) ∈ pairsOf kids) : key ∈ kids ∧ value ∈ kids := by
  induction kids using pairsOf.induct with
  | case1 k v rest ih =>
    rw [pairsOf, List.mem_cons] at member
    rcases member with same | later
    · cases same
      exact ⟨List.mem_cons_self, List.mem_cons_of_mem _ List.mem_cons_self⟩
    · obtain ⟨inKey, inValue⟩ := ih later
      exact ⟨List.mem_cons_of_mem _ (List.mem_cons_of_mem _ inKey),
        List.mem_cons_of_mem _ (List.mem_cons_of_mem _ inValue)⟩
  | case2 kids notPair =>
    match kids, notPair with
    | [], _ => cases member
    | [k], _ => cases member
    | k :: v :: rest, notPair => exact absurd rfl (notPair k v rest)

namespace Emit

section

variable (t : Tree) (c : Comments) (claims : BulletClaims)

/-- The leading comments that a node writes itself: none when they were hoisted before a
bullet. -/
def leadOwed (y : Nat) : Multiset String :=
  if claims.isClaimed y then 0 else trimmed (c.leading y)

def endOwed (y : Nat) : Multiset String :=
  trimmed ((if t.isDocumentLevel y then [] else (c.lineEnd y).toList) ++ c.trailing y)

/-- The comments hoisted in front of the bullets of a block sequence met at `y`. -/
def hoistedAt (y : Nat) (inFlow : Bool) : Multiset String :=
  if !inFlow && t.hasBullets y then
    trimmed ((t.childrenOf y).flatMap fun i => (claims.hoistedOf i).flatMap c.leading)
  else 0

/-- What node `y` owes of its own, met in the flow context `inFlow`. -/
def owedAt (y : Nat) (inFlow : Bool) : Multiset String :=
  leadOwed c claims y + endOwed t c y + hoistedAt t c claims y inFlow

/-- What writing node `y` in the flow context `inFlow` owes: every node below it, each in
the flow context it is met in. -/
def owedBelow (y : Nat) (inFlow : Bool) : Multiset String :=
  ((t.flowPreorder y inFlow).map fun p => owedAt t c claims p.1 p.2).sum

/-- What writing node `y` owes after its leading comments. -/
def contentOwed (y : Nat) (inFlow : Bool) : Multiset String :=
  endOwed t c y + hoistedAt t c claims y inFlow +
    ((t.childrenOf y).map fun k => owedBelow t c claims k (t.rendersInFlow y inFlow || inFlow)).sum

variable {t c claims}

theorem owedBelow_eq {y : Nat} (inside : y < t.size) (inFlow : Bool) :
    owedBelow t c claims y inFlow = leadOwed c claims y + contentOwed t c claims y inFlow := by
  rw [owedBelow, Tree.flowPreorder_eq, if_pos inside, List.map_cons, List.sum_cons,
    sum_map_flatMap, owedAt, contentOwed]
  simp only [owedBelow, add_assoc]

theorem hoistedAt_of_not_hasBullets {y : Nat} (noBullets : t.hasBullets y = false)
    (inFlow : Bool) : hoistedAt t c claims y inFlow = 0 := by
  simp [hoistedAt, noBullets]

theorem hoistedAt_of_rendersInFlow {y : Nat} {inFlow : Bool}
    (flow : t.rendersInFlow y inFlow = true) : hoistedAt t c claims y inFlow = 0 := by
  unfold hoistedAt
  split
  · rename_i bullets
    simp only [Bool.and_eq_true, Bool.not_eq_true'] at bullets
    rw [Tree.rendersInFlow_of_hasBullets bullets.2, bullets.1] at flow
    cases flow
  · rfl

theorem hasBullets_of_not_rendersInFlow {y : Nat} {col : Collection} {inFlow : Bool}
    (found : t.kind? y = some (.sequence col)) (block : t.rendersInFlow y inFlow = false) :
    t.hasBullets y = true ∧ inFlow = false := by
  simp only [Tree.rendersInFlow, found, Bool.or_eq_false_iff, ne_eq,
    List.isEmpty_eq_false_iff] at block
  obtain ⟨⟨outside, notFlow⟩, nonempty⟩ := block
  refine ⟨?_, outside⟩
  cases style : col.style with
  | block =>
    simp only [Tree.hasBullets, found, style, List.isEmpty_eq_false_iff.mpr nonempty,
      Bool.not_false, Bool.true_and]
    decide
  | flow =>
    rw [style] at notFlow
    exact absurd notFlow (by decide)

theorem contentOwed_eq {y : Nat} {k : NodeKind} (found : t.kind? y = some k)
    (notDocument : t.isDocumentLevel y = false) (inFlow : Bool) :
    contentOwed t c claims y inFlow =
      trimmed ((c.lineEnd y).toList ++ c.trailing y) + hoistedAt t c claims y inFlow +
        (k.children.map fun j =>
          owedBelow t c claims j (t.rendersInFlow y inFlow || inFlow)).sum := by
  simp [contentOwed, endOwed, notDocument, Tree.childrenOf, found]

theorem owedBelow_of_isBareNull {v : Nat} (bare : t.isBareNull c v = true) (inFlow : Bool) :
    owedBelow t c claims v inFlow = 0 := by
  unfold Tree.isBareNull at bare
  split at bare
  · rename_i s found
    have inside := Tree.lt_size_of_kind? found
    have empty : (c.get v).isEmpty = true := by simp_all
    simp only [Attachment.isEmpty, Bool.and_eq_true, List.isEmpty_iff,
      Option.isNone_iff_eq_none] at empty
    obtain ⟨⟨noLeading, noTrailing⟩, noLineEnd⟩ := empty
    have noChildren : t.childrenOf v = [] := by simp [Tree.childrenOf, found, NodeKind.children]
    rw [owedBelow_eq inside, contentOwed, noChildren, leadOwed, endOwed, hoistedAt]
    simp [Comments.leading, Comments.trailing, Comments.lineEnd, noLeading, noTrailing,
      noLineEnd, Tree.hasBullets, found]
  · cases bare

end

theorem Logs.separated {β : Type} {m : Emit β} {post : β → Prop} {M : Multiset String}
    (i depth : Nat) (item : Logs m post M) :
    Logs (if i > 0 then do Emit.out (·.write depth ","); Emit.out (·.space); m else m) post M := by
  apply Logs.ite
  · intro _
    exact Logs.afterOut (by simp) (Logs.afterOut (by simp) item)
  · intro _
    exact item

section

variable {t : Tree} {c : Comments} {claims : BulletClaims}

theorem flowSequence_logs (G id : Nat) (kids : List Nat) (frame : Frame)
    (items : ∀ k ∈ kids, ∀ inner : Frame,
      Logs (node t c claims G k inner) (fun _ => True) (owedBelow t c claims k inner.flow)) :
    Logs (flowSequence t c claims (G + 1) id kids frame) (fun _ => True)
      ((kids.map (owedBelow t c claims · true)).sum +
        trimmed ((c.lineEnd id).toList ++ c.trailing id)) := by
  rw [flowSequence]
  apply Logs.afterOut (by simp)
  apply Logs.seq (Logs.forIn (M := (owedBelow t c claims · true) ∘ Prod.fst) _ _ ?step)
  case step =>
    rintro ⟨child, i⟩ member _
    have inKids : child ∈ kids := List.fst_mem_of_mem_zipIdx member
    exact Logs.separated i (frame.depth + 1) ((items child inKids _).thenYield ())
  · intro _ _
    exact Logs.afterOut (by simp) (inlineEnd_logs c id frame)
  · rw [← List.map_map, List.zipIdx_map_fst]

theorem flowMapping_logs (G id : Nat) (kids : List Nat) (frame : Frame)
    (paired : kids.length % 2 = 0)
    (items : ∀ k ∈ kids, ∀ inner : Frame,
      Logs (node t c claims G k inner) (fun _ => True) (owedBelow t c claims k inner.flow)) :
    Logs (flowMapping t c claims (G + 1) id kids frame) (fun _ => True)
      ((kids.map (owedBelow t c claims · true)).sum +
        trimmed ((c.lineEnd id).toList ++ c.trailing id)) := by
  rw [flowMapping]
  apply Logs.afterOut (by simp)
  apply Logs.seq (Logs.forIn
    (M := (fun p => owedBelow t c claims p.1 true + owedBelow t c claims p.2 true) ∘ Prod.fst)
    _ _ ?step)
  case step =>
    rintro ⟨⟨key, value⟩, i⟩ member _
    obtain ⟨inKey, inValue⟩ := mem_of_mem_pairsOf (List.fst_mem_of_mem_zipIdx member)
    apply Logs.separated i (frame.depth + 1)
    apply Logs.bind (items key inKey _)
    intro _ _
    -- A bare null value is left out, and owes nothing.
    apply Logs.afterLookup
    apply Logs.ite
    · intro _
      have colon := Logs.afterOut (f := (·.write (frame.depth + 1) ":")) (by simp)
        (Logs.afterOut (f := (·.space)) (by simp) ((items value inValue
          { frame with depth := frame.depth + 1, flow := true }).thenYield ()))
      apply Logs.afterLookup
      apply Logs.ite
      · intro _
        exact Logs.afterOut (by simp) colon
      · intro _
        exact colon
    · intro bare
      rw [Bool.not_eq_true, Bool.not_eq_false'] at bare
      rw [owedBelow_of_isBareNull bare]
      exact Logs.yield _
  · intro _ _
    exact Logs.afterOut (by simp) (inlineEnd_logs c id frame)
  · rw [← List.map_map, List.zipIdx_map_fst,
      sum_map_pairsOf (owedBelow t c claims · true) kids paired]

theorem blockSequence_logs (G id : Nat) (kids : List Nat) (frame : Frame)
    (items : ∀ k ∈ kids, ∀ inner : Frame,
      Logs (node t c claims G k inner) (fun _ => True) (owedBelow t c claims k inner.flow)) :
    Logs (blockSequence t c claims (G + 1) id kids frame) (fun _ => True)
      ((kids.map fun k =>
          trimmed ((claims.hoistedOf k).flatMap c.leading) + owedBelow t c claims k frame.flow).sum +
        trimmed ((c.lineEnd id).toList ++ c.trailing id)) := by
  rw [blockSequence]
  apply Logs.afterOut (by simp)
  apply Logs.seq (Logs.forIn (M := fun k =>
      trimmed ((claims.hoistedOf k).flatMap c.leading) + owedBelow t c claims k frame.flow) _ _ ?step)
  case step =>
    intro item member _
    apply Logs.seq (Logs.forIn (M := fun h => trimmed (c.leading h)) _ _ ?hoisted)
    case hoisted =>
      intro h _ _
      exact (comments_logs h frame.depth (c.leading h)).thenYield ()
    · intro _ _
      apply Logs.afterOut (by simp)
      apply Logs.bind (items item member _)
      intro _ _
      exact Logs.afterOut (by simp) (Logs.afterOut (by simp) ((Logs.unit ()).thenYield ()))
    · rw [trimmed_flatMap, add_zero]
  · intro _ _
    exact blockEnd_logs c id frame.depth
  · rfl

theorem leading_logs {α : Type} (id depth : Nat) {m : Emit α} {post : α → Prop}
    {M : Multiset String} (rest : Logs m post M) :
    Logs (if (!claims.isClaimed id) = true then comments id depth (c.leading id) >>= fun _ => m
      else m) post (leadOwed c claims id + M) := by
  unfold leadOwed
  by_cases claimed : claims.isClaimed id = true
  · simp only [claimed, Bool.not_true, Bool.false_eq_true, if_false]
    simpa using rest
  · simp only [claimed, Bool.not_false, if_true]
    exact Logs.bind (comments_logs id depth (c.leading id)) (fun _ _ => rest)

theorem node_logs (G id : Nat) (frame : Frame) (inside : id < t.size)
    (rest : Logs (content t c claims G id frame) (fun _ => True)
      (contentOwed t c claims id frame.flow)) :
    Logs (node t c claims (G + 1) id frame) (fun _ => True) (owedBelow t c claims id frame.flow) := by
  rw [node, owedBelow_eq inside]
  exact leading_logs id frame.depth rest

theorem explicitEntry_logs (G key value : Nat) (frame : Frame)
    (parts : ∀ n ∈ [key, value], ∀ inner : Frame,
      Logs (content t c claims G n inner) (fun _ => True) (contentOwed t c claims n inner.flow)) :
    Logs (explicitEntry t c claims (G + 1) key value frame) (fun _ => True)
      (leadOwed c claims key + contentOwed t c claims key frame.flow +
        (leadOwed c claims value + contentOwed t c claims value frame.flow)) := by
  rw [explicitEntry]
  apply Logs.seq (Logs.forIn
    (M := fun p => leadOwed c claims p.2 + contentOwed t c claims p.2 frame.flow) _ _ ?step)
    (fun _ _ => Logs.unit ())
  case step =>
    rintro ⟨indicator, n⟩ member _
    have inParts : n ∈ [key, value] := by
      simp only [List.mem_cons, Prod.mk.injEq, List.not_mem_nil, or_false] at member
      rcases member with ⟨-, rfl⟩ | ⟨-, rfl⟩ <;> simp
    apply Logs.afterOut (by simp)
    apply leading_logs n frame.depth
    apply Logs.afterOut (by simp)
    apply Logs.seq (parts n inParts _)
    · intro _ _
      exact Logs.afterOut (by simp) ((Logs.unit ()).thenYield ())
    · exact add_zero _
  · simp

theorem mappingValue_logs (G value : Nat) (frame : Frame)
    (item : ∀ inner : Frame,
      Logs (node t c claims G value inner) (fun _ => True) (owedBelow t c claims value inner.flow)) :
    Logs (mappingValue t c claims (G + 1) value frame) (fun _ => True)
      (owedBelow t c claims value frame.flow) := by
  rw [mappingValue]
  apply Logs.afterLookup
  apply Logs.ite
  · intro _
    exact item frame
  · intro _
    dsimp only
    exact Logs.optionalOut (by simp) (item _)

theorem blockMapping_logs (G id : Nat) (kids : List Nat) (frame : Frame)
    (paired : kids.length % 2 = 0) (inside : ∀ k ∈ kids, k < t.size)
    (keys : ∀ k ∈ kids, ∀ inner : Frame,
      Logs (node t c claims (G + 1) k inner) (fun _ => True) (owedBelow t c claims k inner.flow))
    (values : ∀ k ∈ kids, ∀ inner : Frame,
      Logs (node t c claims G k inner) (fun _ => True) (owedBelow t c claims k inner.flow))
    (parts : ∀ k ∈ kids, ∀ inner : Frame,
      Logs (content t c claims G k inner) (fun _ => True) (contentOwed t c claims k inner.flow)) :
    Logs (blockMapping t c claims (G + 2) id kids frame) (fun _ => True)
      ((kids.map (owedBelow t c claims · frame.flow)).sum +
        trimmed ((c.lineEnd id).toList ++ c.trailing id)) := by
  rw [blockMapping]
  apply Logs.afterOut (by simp)
  apply Logs.seq (Logs.forIn (M := fun p =>
      owedBelow t c claims p.1 frame.flow + owedBelow t c claims p.2 frame.flow) _ _ ?step)
  case step =>
    rintro ⟨key, value⟩ member _
    obtain ⟨inKey, inValue⟩ := mem_of_mem_pairsOf member
    have ending : Logs (Emit.out (·.newline) >>= fun _ => Pure.pure (ForInStep.yield PUnit.unit))
        (fun r => ∃ s', r = .yield s') 0 :=
      Logs.afterOut (by simp) (Logs.yield _)
    apply Logs.afterLookup
    apply Logs.ite
    · intro _
      rw [owedBelow_eq (inside key inKey), owedBelow_eq (inside value inValue)]
      refine Logs.seq (explicitEntry_logs G key value _ ?parts) (fun _ _ => ending) (add_zero _)
      case parts =>
        intro n member inner
        simp only [List.mem_cons, List.not_mem_nil, or_false] at member
        rcases member with rfl | rfl
        · exact parts n inKey inner
        · exact parts n inValue inner
    · intro _
      apply Logs.bind (keys key inKey _)
      intro _ _
      apply Logs.afterLookup
      apply Logs.optionalOut (by simp)
      exact Logs.afterOut (by simp) (Logs.afterOut (by simp)
        (Logs.seq (mappingValue_logs G value _ (values value inValue)) (fun _ _ => ending)
          (add_zero _)))
  · intro _ _
    exact blockEnd_logs c id frame.depth
  · rw [sum_map_pairsOf (owedBelow t c claims · frame.flow) kids paired]

end

theorem properties_logs (k : NodeKind) (frame : Frame) :
    Logs (properties k frame) (fun _ => True) 0 := by
  unfold properties
  dsimp only
  split
  on_goal 1 =>
    apply Logs.afterOut (by simp)
    apply Logs.afterOut (by simp)
  -- With or without an anchor, the tag is written next.
  all_goals
    split
    · exact Logs.afterOut (by simp) (Logs.out _ (by simp))
    · exact Logs.unit ()

section

variable {t : Tree} {c : Comments} {claims : BulletClaims}

/-- With enough fuel, writing the content of a node adds to the record exactly what it owes:
its line-end and trailing comments, the comments hoisted in front of its bullets, and all
that the nodes below it owe. The fuel needed grows by four a node, which is what the
writer spends from a node to the nodes below it. -/
theorem content_logs (paired : t.PairsChildren) (id : Nat) (inside : id < t.size) (F : Nat)
    (frame : Frame) (enough : 4 * id + 4 ≤ F) :
    Logs (content t c claims F id frame) (fun _ => True) (contentOwed t c claims id frame.flow) := by
  induction id using Nat.strongRecOn generalizing F frame with
  | ind id ih =>
  obtain ⟨k, found⟩ := Tree.exists_kind? inside
  have kids : t.childrenOf id = k.children := by simp [Tree.childrenOf, found]
  have below : ∀ j ∈ k.children, j < id := fun j member =>
    Tree.lt_of_mem_childrenOf (kids ▸ member)
  -- The induction is on the node: the nodes below it come before it in the arena, and need
  -- four units of fuel less.
  have parts : ∀ G, 4 * id ≤ G → ∀ j ∈ k.children, ∀ inner : Frame,
      Logs (content t c claims G j inner) (fun _ => True) (contentOwed t c claims j inner.flow) :=
    fun G more j member inner =>
      have lower := below j member
      ih j lower (by omega) G inner (by omega)
  have nodes : ∀ G, 4 * id + 1 ≤ G → ∀ j ∈ k.children, ∀ inner : Frame,
      Logs (node t c claims G j inner) (fun _ => True) (owedBelow t c claims j inner.flow) := by
    intro G more j member inner
    obtain ⟨G, rfl⟩ : ∃ G', G = G' + 1 := ⟨G - 1, by omega⟩
    have lower := below j member
    exact node_logs G j inner (by omega) (parts G (by omega) j member inner)
  obtain ⟨G, rfl⟩ : ∃ G, F = G + 4 := ⟨F - 4, by omega⟩
  rw [content, found]
  refine Logs.afterLookup (Logs.afterOut (by simp)
    (Logs.seq (properties_logs k frame) (fun _ _ => ?_) (zero_add _)))
  cases k with
  | scalar s =>
    rw [contentOwed_eq found (by simp [Tree.isDocumentLevel, found]),
      hoistedAt_of_not_hasBullets (by simp [Tree.hasBullets, found])]
    simpa [NodeKind.children] using scalar_logs c id s frame
  | «alias» name =>
    rw [contentOwed_eq found (by simp [Tree.isDocumentLevel, found]),
      hoistedAt_of_not_hasBullets (by simp [Tree.hasBullets, found])]
    simpa [NodeKind.children] using Logs.afterOut (by simp) (inlineEnd_logs c id frame)
  | mapping col =>
    rw [contentOwed_eq found (by simp [Tree.isDocumentLevel, found]),
      hoistedAt_of_not_hasBullets (by simp [Tree.hasBullets, found]), add_zero]
    have even := paired id col found
    apply Logs.ite
    · intro flow
      rw [flow, Bool.true_or]
      exact (flowMapping_logs (G + 2) id col.children frame even (nodes _ (by omega))).mono
        (fun _ _ => trivial) (add_comm _ _)
    · intro block
      rw [Bool.not_eq_true] at block
      rw [block, Bool.false_or]
      exact (blockMapping_logs (G + 1) id col.children frame even
        (fun j member => Nat.lt_trans (below j member) inside) (nodes _ (by omega))
        (nodes _ (by omega)) (parts _ (by omega))).mono (fun _ _ => trivial) (add_comm _ _)
  | sequence col =>
    rw [contentOwed_eq found (by simp [Tree.isDocumentLevel, found])]
    apply Logs.ite
    · intro flow
      rw [hoistedAt_of_rendersInFlow flow, flow, Bool.true_or, add_zero]
      exact (flowSequence_logs (G + 2) id col.children frame (nodes _ (by omega))).mono
        (fun _ _ => trivial) (add_comm _ _)
    · intro block
      rw [Bool.not_eq_true] at block
      obtain ⟨bullets, outside⟩ := hasBullets_of_not_rendersInFlow found block
      -- A block sequence owes the comments hoisted in front of its bullets.
      rw [block, Bool.false_or, hoistedAt, if_pos (by simp [outside, bullets]), kids]
      refine (blockSequence_logs (G + 2) id col.children frame (nodes _ (by omega))).mono
        (fun _ _ => trivial) ?_
      rw [List.sum_map_add, trimmed_flatMap]
      ac_rfl
  | document d => exact Logs.throw _ _ _
  | stream docs => exact Logs.throw _ _ _

theorem node_owes (paired : t.PairsChildren) (id : Nat) (inside : id < t.size) (F : Nat)
    (frame : Frame) (enough : 4 * id + 5 ≤ F) :
    Logs (node t c claims F id frame) (fun _ => True) (owedBelow t c claims id frame.flow) := by
  obtain ⟨G, rfl⟩ : ∃ G, F = G + 1 := ⟨F - 1, by omega⟩
  exact node_logs G id frame inside (content_logs paired id inside G frame (by omega))

theorem documentStart_logs (d : Document) (followsOpen : Bool) :
    Logs (documentStart c d followsOpen) (fun _ => True) 0 := by
  rw [documentStart]
  apply Logs.seq (Logs.forIn (M := fun _ => 0) _ _ ?directive)
  case directive =>
    intro _ _ _
    exact Logs.afterOut (by simp) (Logs.afterOut (by simp) ((Logs.out _ (by simp)).thenYield _))
  · intro _ _
    apply Logs.ite
    · intro _
      apply Logs.afterOut (by simp)
      apply Logs.afterOut (by simp)
      exact Logs.ite (fun _ => Logs.out _ (by simp)) (fun _ => Logs.out _ (by simp))
    · intro _
      exact Logs.unit ()
  · simp

theorem document_logs (fuel id : Nat) (d : Document) (followsOpen nextHasDirectives : Bool)
    {M : Multiset String}
    (below : Logs (node t c claims fuel d.root (Frame.top (TagScope.forDocument d.tagDirectives)))
      (fun _ => True) M) :
    Logs (document t c claims fuel id d followsOpen nextHasDirectives) (fun _ => True)
      (trimmed (c.leading id) + M + trimmed (c.trailing id)) := by
  rw [document]
  apply Logs.seq (comments_logs id 0 (c.leading id))
  · intro _ _
    apply Logs.seq (documentStart_logs d followsOpen)
    · intro _ _
      apply Logs.seq below
      · intro _ _
        apply Logs.afterOut (by simp)
        dsimp only
        have closing := Logs.seq (comments_logs id 0 (c.trailing id))
          (fun _ _ => Logs.unit (!d.implicitEnd || nextHasDirectives)) (add_zero _)
        apply Logs.ite
        · intro _
          exact Logs.afterOut (by simp) (Logs.afterOut (by simp) closing)
        · intro _
          exact closing
      · rfl
    · rfl
  · simp [add_assoc]

theorem nextHasDirectives_logs (next : Option Nat) :
    Logs (nextHasDirectives t next) (fun _ => True) 0 := by
  unfold nextHasDirectives
  split
  · exact Logs.unit _
  · apply Logs.afterLookup
    split <;> exact Logs.unit _

theorem stream_logs (fuel id : Nat) (docs : List Nat) (D : Nat → Multiset String)
    (each : ∀ docId ∈ docs, ∀ d, t.kind? docId = some (.document d) →
      ∀ followsOpen nextHasDirectives,
        Logs (document t c claims fuel docId d followsOpen nextHasDirectives) (fun _ => True)
          (D docId)) :
    Logs (stream t c claims fuel id docs) (fun _ => True)
      (trimmed (c.leading id) + (docs.map D).sum + trimmed (c.trailing id)) := by
  rw [stream]
  apply Logs.seq (comments_logs id 0 (c.leading id))
  · intro _ _
    apply Logs.seq (Logs.forIn (M := D ∘ Prod.fst) _ _ ?step)
    case step =>
      rintro ⟨docId, i⟩ member followsOpen
      dsimp only
      apply Logs.afterLookup
      split
      · rename_i d found
        refine Logs.seq (nextHasDirectives_logs _) (fun _ _ => ?_) (zero_add _)
        exact Logs.seq (each docId (List.fst_mem_of_mem_zipIdx member) d found _ _)
          (fun _ _ => Logs.yield _) (add_zero _)
      · exact Logs.throw _ _ _
    · intro _ _
      exact comments_logs id 0 (c.trailing id)
    · rfl
  · rw [← List.map_map, List.zipIdx_map_fst, add_assoc]

theorem owedBelow_of_isDocumentLevel {y : Nat} {k : NodeKind} (found : t.kind? y = some k)
    (level : t.isDocumentLevel y = true) (unclaimed : claims.isClaimed y = false)
    (inFlow : Bool) :
    owedBelow t c claims y inFlow = trimmed (c.leading y) +
      (k.children.map (owedBelow t c claims · inFlow)).sum + trimmed (c.trailing y) := by
  have inside := Tree.lt_size_of_kind? found
  have noBullets : t.hasBullets y = false := by
    unfold Tree.isDocumentLevel at level
    cases k <;> simp_all [Tree.hasBullets]
  have notFlow : t.rendersInFlow y inFlow = false := by
    unfold Tree.isDocumentLevel at level
    cases k <;> simp_all [Tree.rendersInFlow]
  rw [owedBelow_eq inside, leadOwed, unclaimed, contentOwed, endOwed, level,
    hoistedAt_of_not_hasBullets noBullets, notFlow, Bool.false_or]
  simp [Tree.childrenOf, found, add_assoc, add_comm (trimmed (c.trailing y))]

theorem document_owes (paired : t.PairsChildren) {y : Nat} {d : Document}
    (found : t.kind? y = some (.document d)) (inside : y < t.size)
    (unclaimed : claims.isClaimed y = false) (fuel : Nat) (enough : 4 * y + 1 ≤ fuel)
    (followsOpen nextHasDirectives : Bool) :
    Logs (document t c claims fuel y d followsOpen nextHasDirectives) (fun _ => True)
      (owedBelow t c claims y false) := by
  have member : d.root ∈ t.childrenOf y := by simp [Tree.childrenOf, found, NodeKind.children]
  have below := Tree.lt_of_mem_childrenOf member
  rw [owedBelow_of_isDocumentLevel found (by simp [Tree.isDocumentLevel, found]) unclaimed]
  simp only [NodeKind.children, List.map_cons, List.map_nil, List.sum_cons, List.sum_nil,
    add_zero]
  exact document_logs _ _ d _ _ (node_owes paired d.root (by omega) _ _ (by omega))

end

section

variable {t : Tree} {c : Comments}

theorem collect_not_claimed_root (shaped : t.TreeShaped) {r : Nat} (root : t.root? = some r) :
    (BulletClaims.collect t c).isClaimed r = false := by
  by_contra claimed
  rw [Bool.not_eq_false] at claimed
  obtain ⟨p, child, _⟩ := BulletClaims.collect_claimed_child shaped root claimed
  have := Tree.lt_of_mem_childrenOf child
  have := Tree.lt_size_of_mem_childrenOf child
  have := Tree.root_eq root
  omega

theorem collect_not_claimed_child (shaped : t.TreeShaped) {r : Nat} (root : t.root? = some r)
    {p y : Nat} (child : y ∈ t.childrenOf p) (notCollection : t.isCollection p = false) :
    (BulletClaims.collect t c).isClaimed y = false := by
  by_contra claimed
  rw [Bool.not_eq_false] at claimed
  obtain ⟨q, child', collection⟩ := BulletClaims.collect_claimed_child shaped root claimed
  rw [shaped.parent_unique child child', collection] at notCollection
  cases notCollection

/-- Writing from the root adds to the record what the root owes. -/
theorem root_logs (shaped : t.TreeShaped) (paired : t.PairsChildren) {r : Nat}
    (root : t.root? = some r) :
    Logs (Emit.root t c (BulletClaims.collect t c) (8 * (t.size + 1)) r) (fun _ => True)
      (owedBelow t c (BulletClaims.collect t c) r false) := by
  have inside : r < t.size := by have := Tree.root_eq root; omega
  obtain ⟨k, found⟩ := Tree.exists_kind? inside
  rw [Emit.root, found]
  apply Logs.afterLookup
  cases k
  case stream docs =>
    rw [owedBelow_of_isDocumentLevel found (by simp [Tree.isDocumentLevel, found])
      (collect_not_claimed_root shaped root)]
    apply stream_logs
    intro docId member d isDocument _ _
    have child : docId ∈ t.childrenOf r := by
      simpa [Tree.childrenOf, found, NodeKind.children] using member
    have below := Tree.lt_of_mem_childrenOf child
    -- A document of the stream is a child of a node that is no collection.
    have unclaimed := collect_not_claimed_child (c := c) shaped root child
      (by simp [Tree.isCollection, found, NodeKind.collection?])
    exact document_owes paired isDocument (by omega) unclaimed _ (by omega) _ _
  case document d =>
    exact Logs.seq (document_owes paired found inside (collect_not_claimed_root shaped root) _
      (by omega) false false) (fun _ _ => Logs.unit ()) (add_zero _)
  -- Any other root is written as a node, then the last line is ended.
  all_goals
    dsimp only
    exact Logs.seq (node_owes paired r inside _ _ (by omega))
      (fun _ _ => Logs.out _ (by simp)) (add_zero _)

end

section

variable {t : Tree} {c : Comments} {claims : BulletClaims}

theorem sum_hoistedAt (y : Nat) (inFlow : Bool) :
    ((t.flowPreorder y inFlow).map fun p => hoistedAt t c claims p.1 p.2).sum =
      trimmed (((t.bulletItems y inFlow).flatMap claims.hoistedOf).flatMap c.leading) := by
  rw [Tree.bulletItems, List.flatMap_assoc, List.flatMap_assoc, trimmed_flatMap]
  congr 1
  apply List.map_congr_left
  rintro ⟨z, g⟩ _
  unfold hoistedAt
  dsimp only
  by_cases bullets : (!g && t.hasBullets z) = true
  · rw [if_pos bullets, if_pos bullets]
  · rw [if_neg bullets, if_neg bullets]
    rfl

theorem trimmed_filter_flatMap (ys : List Nat) (q : Nat → Bool) (L : Nat → List String) :
    trimmed ((ys.filter q).flatMap L) =
      (ys.map fun y => if q y then trimmed (L y) else 0).sum := by
  induction ys with
  | nil => rfl
  | cons y rest ih => by_cases holds : q y <;> simp [holds, ih]

/-- A node's leading comments are written once: by the node, or in front of a bullet. -/
theorem leadOwed_add_hoisted (y : Nat) :
    leadOwed c claims y + (if claims.isClaimed y && BulletClaims.hasLeading c y then
      trimmed (c.leading y) else 0) = trimmed (c.leading y) := by
  unfold leadOwed BulletClaims.hasLeading
  by_cases claimed : claims.isClaimed y = true
  · by_cases empty : (c.leading y).isEmpty = true
    · simp [claimed, List.isEmpty_iff.mp empty]
    · simp [claimed, empty]
  · simp [claimed]

theorem trimmed_owed (y : Nat) : trimmed (c.owed t y) = trimmed (c.leading y) + endOwed t c y := by
  simp [Comments.owed, endOwed]

/-- What the root owes is every comment of the walk once, but the line-end comments of
documents and streams. -/
theorem owedBelow_root (shaped : t.TreeShaped) {r : Nat} (root : t.root? = some r) :
    owedBelow t c (BulletClaims.collect t c) r false = trimmed (t.walk.flatMap (c.owed t)) := by
  have walk : t.walk = t.preorder r := by simp [Tree.walk_eq_preorder, root]
  have onWalk : ∀ f : Nat → Multiset String,
      ((t.flowPreorder r false).map fun p => f p.1).sum = ((t.preorder r).map f).sum := by
    intro f
    rw [← Tree.map_fst_flowPreorder r false, List.map_map]
    rfl
  -- The pre-pass hoists each claimed comment of the walk once.
  have hoisted : trimmed (((t.bulletItems r false).flatMap
      (BulletClaims.collect t c).hoistedOf).flatMap c.leading) =
      ((t.preorder r).map fun y => if (BulletClaims.collect t c).isClaimed y &&
        BulletClaims.hasLeading c y then trimmed (c.leading y) else 0).sum := by
    rw [← trimmed_filter_flatMap]
    exact Multiset.coe_eq_coe.mpr
      (((BulletClaims.hoisted_perm_walk shaped root).flatMap_right c.leading).map _)
  calc owedBelow t c (BulletClaims.collect t c) r false
      = ((t.flowPreorder r false).map fun p =>
            leadOwed c (BulletClaims.collect t c) p.1 + endOwed t c p.1).sum +
          ((t.flowPreorder r false).map fun p =>
            hoistedAt t c (BulletClaims.collect t c) p.1 p.2).sum := by
        rw [owedBelow, ← List.sum_map_add]
        rfl
    _ = ((t.preorder r).map fun y => leadOwed c (BulletClaims.collect t c) y + endOwed t c y).sum +
          ((t.preorder r).map fun y => if (BulletClaims.collect t c).isClaimed y &&
            BulletClaims.hasLeading c y then trimmed (c.leading y) else 0).sum := by
        rw [onWalk (fun y => leadOwed c (BulletClaims.collect t c) y + endOwed t c y),
          sum_hoistedAt, hoisted]
    _ = ((t.preorder r).map fun y => trimmed (c.owed t y)).sum := by
        rw [← List.sum_map_add]
        congr 1
        apply List.map_congr_left
        intro y _
        rw [trimmed_owed, add_right_comm, leadOwed_add_hoisted]
    _ = trimmed (t.walk.flatMap (c.owed t)) := by rw [walk, trimmed_flatMap]

end

end Emit

/-- Writing a tree built by `push`, whose arena is tree-shaped, prints every stored comment of
the nodes it reaches once, white space cut from its front: the leading, line-end and trailing
comments of every node, but the line-end comments of documents and streams, which are never
written. Comments hoisted in front of a `- ` bullet are written there and nowhere else. -/
theorem render_writes_every_comment_once (a : AnnotatedTree) (indent : IndentWidth)
    (built : a.tree.Built) (shaped : a.tree.TreeShaped) {text : String}
    (rendered : a.render indent = .ok text) :
    ∃ w, a.write indent = .ok w ∧ w.finish = text ∧
      (w.commentLog : Multiset String) = trimmed (a.tree.walk.flatMap (a.comments.owed a.tree)) := by
  unfold AnnotatedTree.render at rendered
  cases written : a.write indent with
  | error e =>
    rw [written] at rendered
    cases rendered
  | ok w =>
    rw [written] at rendered
    cases rendered
    refine ⟨w, rfl, rfl, ?_⟩
    unfold AnnotatedTree.write at written
    split at written
    · rename_i noRoot
      cases written
      simp [Tree.walk_eq_preorder, noRoot]
    · rename_i r root
      dsimp only at written
      split at written
      · rename_i w' ran
        cases written
        obtain ⟨-, logged⟩ := (Emit.root_logs shaped built.pairsChildren root).ok_of ran
        rw [logged, Emit.owedBelow_root shaped root]
        simp
      · cases written

/-- `- "a": "1"` under a comment, with a comment on the key that moves in front of the bullet
and a line-end comment on the value. -/
def bulletSampleNodes : List Node :=
  [{ kind := .scalar { value := "a", style := .doubleQuoted } },
    { kind := .scalar { value := "1", style := .doubleQuoted } },
    { kind := .mapping { children := [0, 1] } }, { kind := .sequence { children := [2] } }]

def bulletSample : AnnotatedTree :=
  let comments : Comments :=
    { slots := #[{ leading := ["# key"] }, { lineEnd := some "  # one" }, {},
        { leading := ["# top"], trailing := ["# end"] }] }
  match Tree.empty.pushAll bulletSampleNodes with
  | .ok t => ⟨t, comments⟩
  | .error _ => ⟨Tree.empty, comments⟩

theorem bulletSample_comments_written_once :
    bulletSample.tree.Built ∧ bulletSample.tree.TreeShaped ∧
      bulletSample.render IndentWidth.standard = .ok "# top\n# key\n- \"a\": \"1\" # one\n# end\n" ∧
      ∃ w, bulletSample.write IndentWidth.standard = .ok w ∧
        w.finish = "# top\n# key\n- \"a\": \"1\" # one\n# end\n" ∧
        (w.commentLog : Multiset String) =
          trimmed (bulletSample.tree.walk.flatMap (bulletSample.comments.owed bulletSample.tree)) :=
  have built : bulletSample.tree.Built :=
    @Tree.Built.pushAll _ _ bulletSampleNodes Tree.Built.empty rfl
  have shaped : bulletSample.tree.TreeShaped := by decide
  have rendered : bulletSample.render IndentWidth.standard =
      .ok "# top\n# key\n- \"a\": \"1\" # one\n# end\n" := by decide +kernel
  ⟨built, shaped, rendered,
    render_writes_every_comment_once bulletSample IndentWidth.standard built shaped rendered⟩

end AnnotatedYaml
