import AnnotatedYaml.Proofs.Comment.Analysis
import AnnotatedYaml.Proofs.Layout.CommentLines

/-! Attaching comments fails exactly when a node has a position outside the text, and otherwise
stores only comments cut from it. -/

namespace AnnotatedYaml

open Text

namespace Tree

theorem ordered_of_push {t t' : Tree} {n : Node} {i : Nat} (pushed : t.push n = .ok (i, t')) :
    ¬n.stop < n.start := by
  unfold Tree.push at pushed
  split at pushed
  · cases pushed
  · split at pushed
    · split at pushed
      · cases pushed
      · split at pushed
        · cases pushed
        · assumption
    · split at pushed
      · cases pushed
      · assumption

theorem Built.ordered {t : Tree} (built : t.Built) : ∀ n ∈ t.nodes, ¬n.stop < n.start := by
  induction built with
  | empty => simp [Tree.empty]
  | @push t t' n _ _ pushed ih =>
    rw [(push_eq_ok pushed).2.1]
    intro m member
    rcases Array.mem_push.mp member with old | new
    · exact ih m old
    · exact new ▸ ordered_of_push pushed

end Tree

theorem forIn_eq_findSome? {ε β : Type} (xs : List β) (f : β → PUnit → Except ε (ForInStep PUnit))
    (fault : β → Option ε)
    (step : ∀ x, f x PUnit.unit = (fault x).elim (.ok (.yield PUnit.unit)) .error) :
    ForIn.forIn xs PUnit.unit f = (xs.findSome? fault).elim (.ok PUnit.unit) .error := by
  induction xs with
  | nil => rfl
  | cons x rest ih =>
    rw [List.forIn_cons, step, List.findSome?_cons]
    cases fault x with
    | none => exact ih
    | some e => rfl

section FirstFault

variable {α ε : Type} (g : α → Nat → Option ε) (e : ε)

/-- Item `i` of `xs`, numbered from `k`, is the first that `g` finds fault with, and its fault
is `e`. -/
def FirstFault (xs : List α) (k i : Nat) : Prop :=
  ∃ x, xs[i]? = some x ∧ g x (k + i) = some e ∧
    ∀ j y, j < i → xs[j]? = some y → g y (k + j) = none

variable {g e}

theorem firstFault_zero {x : α} {rest : List α} {k : Nat} :
    FirstFault g e (x :: rest) k 0 ↔ g x k = some e := by
  simp [FirstFault]

theorem firstFault_succ {x : α} {rest : List α} {k i : Nat} (clean : g x k = none) :
    FirstFault g e (x :: rest) k (i + 1) ↔ FirstFault g e rest (k + 1) i := by
  unfold FirstFault
  simp only [List.getElem?_cons_succ, show k + (i + 1) = k + 1 + i by omega]
  constructor
  · rintro ⟨y, found, fault, earlier⟩
    refine ⟨y, found, fault, fun j z before inside => ?_⟩
    rw [show k + 1 + j = k + (j + 1) by omega]
    exact earlier (j + 1) z (by omega) inside
  · rintro ⟨y, found, fault, earlier⟩
    refine ⟨y, found, fault, fun j z before inside => ?_⟩
    cases j with
    | zero =>
      simp only [List.getElem?_cons_zero, Option.some.injEq] at inside
      subst inside
      simpa using clean
    | succ j =>
      rw [show k + (j + 1) = k + 1 + j by omega]
      exact earlier j z (by omega) inside

theorem not_firstFault_succ {x : α} {rest : List α} {k i : Nat} {b : ε}
    (faulty : g x k = some b) : ¬FirstFault g e (x :: rest) k (i + 1) := by
  rintro ⟨_, _, _, earlier⟩
  have clean := earlier 0 x (by omega) rfl
  rw [Nat.add_zero, faulty] at clean
  cases clean

theorem findSome?_zipIdx_eq_some : ∀ (xs : List α) (k : Nat),
    (xs.zipIdx k).findSome? (fun p => g p.1 p.2) = some e ↔ ∃ i, FirstFault g e xs k i
  | [], k => by simp [FirstFault]
  | x :: rest, k => by
    rw [List.zipIdx_cons, List.findSome?_cons]
    cases first : g x k with
    | some b =>
      -- the first item is at fault, and it is the one reported
      rw [Option.some.injEq]
      constructor
      · rintro rfl
        exact ⟨0, firstFault_zero.mpr first⟩
      · rintro ⟨_ | i, found⟩
        · exact Option.some.inj (first.symm.trans (firstFault_zero.mp found))
        · exact absurd found (not_firstFault_succ first)
    | none =>
      -- the first item is fine: the first fault is among the rest, one further along
      dsimp only
      rw [findSome?_zipIdx_eq_some rest (k + 1)]
      constructor
      · rintro ⟨i, found⟩
        exact ⟨i + 1, (firstFault_succ first).mpr found⟩
      · rintro ⟨_ | i, found⟩
        · rw [firstFault_zero, first] at found
          cases found
        · exact ⟨i, (firstFault_succ first).mp found⟩

end FirstFault

theorem elim_eq_error {ε : Type} (o : Option ε) (e : ε) :
    (o.elim (.ok ()) .error : Except ε Unit) = .error e ↔ o = some e := by
  cases o <;> simp

namespace Text.SourceText

/-- What the position check finds wrong with node `n`, number `i`: the first of its start and
end that lies outside the text, else an end before its start. -/
def positionFault (s : SourceText) (n : Node) (i : Nat) : Option Error :=
  if !s.contains n.start then some (.positionOutOfBounds i n.start s.lineCount)
  else if !s.contains n.stop then some (.positionOutOfBounds i n.stop s.lineCount)
  else if n.stop < n.start then some (.invertedSpan i n.start n.stop)
  else none

end Text.SourceText

/-- The position check reports the first node, in arena order, that it finds fault with. -/
theorem Tree.checkPositions_eq (t : Tree) (s : SourceText) :
    t.checkPositions s =
      (t.nodes.toList.zipIdx.findSome? fun p => s.positionFault p.1 p.2).elim (.ok ()) .error := by
  unfold Tree.checkPositions
  rw [forIn_eq_findSome? _ _ (fun p => s.positionFault p.1 p.2) ?step]
  · cases (t.nodes.toList.zipIdx.findSome? fun p => s.positionFault p.1 p.2) <;> rfl
  case step =>
    rintro ⟨n, i⟩
    unfold SourceText.positionFault
    by_cases start : s.contains n.start <;> by_cases stop : s.contains n.stop <;>
      by_cases inverted : n.stop < n.start <;> simp [start, stop, inverted] <;> rfl

namespace Tree

variable {text : String} {t : Tree}

/-- The comments that attaching stores: none without a root, else those that the walk from the
root attributes, starting from an empty slot per node. -/
def walkComments (t : Tree) (text : String) : Comments :=
  t.root?.elim (Comments.forTree t) fun r =>
    ((Analyzer.visit (t.size + 1) r).run
      { source := SourceText.ofString text, tree := t, comments := Comments.forTree t }).2.comments

theorem attachComments_eq :
    t.attachComments text =
      (t.checkPositions (SourceText.ofString text)).map fun _ => ⟨t, t.walkComments text⟩ := by
  unfold attachComments walkComments
  dsimp only
  cases t.checkPositions (SourceText.ofString text) <;> cases t.root? <;> rfl

/-- Attaching fails only where the position check does. -/
theorem attachComments_eq_error_iff (e : Error) :
    t.attachComments text = .error e ↔ t.checkPositions (SourceText.ofString text) = .error e := by
  rw [attachComments_eq]
  cases t.checkPositions (SourceText.ofString text) <;> simp [Except.map]

theorem attachComments_eq_ok {a : AnnotatedTree} (attached : t.attachComments text = .ok a) :
    a = ⟨t, t.walkComments text⟩ := by
  rw [attachComments_eq] at attached
  cases checked : t.checkPositions (SourceText.ofString text) <;>
    simp [checked, Except.map] at attached
  exact attached.symm

theorem walkComments_stored :
    ∀ s ∈ (t.walkComments text).all, CommentPiece text.toList s.toList := by
  unfold walkComments
  cases t.root? with
  | none => simp [Comments.all_forTree]
  | some r =>
    -- the walk starts from an empty table, and each of its steps keeps `Reads`
    exact ((Analyzer.visit_keeps (t.size + 1) r).run ⟨rfl, by simp [Comments.all_forTree]⟩).2.stored

/-- On a tree built by `push`, the check finds fault with a node only for a position outside
the text, its start before its end. -/
theorem Built.positionFault (built : t.Built) (s : SourceText) {n : Node} (member : n ∈ t.nodes)
    (i : Nat) :
    s.positionFault n i = if s.contains n.start && s.contains n.stop then none
      else some (.positionOutOfBounds i (if s.contains n.start then n.stop else n.start)
        s.lineCount) := by
  have ordered := built.ordered n member
  unfold SourceText.positionFault
  by_cases start : s.contains n.start <;> by_cases stop : s.contains n.stop <;>
    simp [start, stop, ordered]

/-- Attaching comments to a tree built by `push` fails with the first node, in arena order,
that has a position outside the text, naming its start before its end. -/
theorem attachComments_eq_error_iff_first (built : t.Built) (e : Error) :
    t.attachComments text = .error e ↔
      ∃ i n, t.nodes[i]? = some n ∧
        ((SourceText.ofString text).contains n.start = false ∨
          (SourceText.ofString text).contains n.stop = false) ∧
        (∀ j m, j < i → t.nodes[j]? = some m →
          (SourceText.ofString text).contains m.start = true ∧
            (SourceText.ofString text).contains m.stop = true) ∧
        e = .positionOutOfBounds i
          (if (SourceText.ofString text).contains n.start then n.stop else n.start)
          (SourceText.ofString text).lineCount := by
  rw [attachComments_eq_error_iff, checkPositions_eq, elim_eq_error, findSome?_zipIdx_eq_some]
  simp only [FirstFault, Nat.zero_add, Array.getElem?_toList]
  -- each node's fault, read off by `Built.positionFault`
  constructor
  · rintro ⟨i, n, found, faulty, earlier⟩
    rw [built.positionFault _ (Array.mem_of_getElem? found)] at faulty
    refine ⟨i, n, found, ?_, fun j m before slot => ?_, ?_⟩
    · by_contra inside
      rw [not_or, Bool.not_eq_false, Bool.not_eq_false] at inside
      rw [if_pos (by simp [inside.1, inside.2])] at faulty
      cases faulty
    · have clean := earlier j m before slot
      rw [built.positionFault _ (Array.mem_of_getElem? slot)] at clean
      split at clean
      · rename_i both
        simpa using both
      · cases clean
    · split at faulty
      · cases faulty
      · exact (Option.some.inj faulty).symm
  · rintro ⟨i, n, found, outside, earlier, rfl⟩
    refine ⟨i, n, found, ?_, fun j m before slot => ?_⟩
    · rw [built.positionFault _ (Array.mem_of_getElem? found), if_neg]
      rcases outside with outside | outside <;> simp [outside]
    · obtain ⟨start, stop⟩ := earlier j m before slot
      rw [built.positionFault _ (Array.mem_of_getElem? slot), if_pos (by simp [start, stop])]

/-- Attaching comments to a tree built by `push` fails exactly when a node has a position
outside the text. -/
theorem attachComments_fails_iff (built : t.Built) :
    (∃ e, t.attachComments text = .error e) ↔
      ∃ n ∈ t.nodes, (SourceText.ofString text).contains n.start = false ∨
        (SourceText.ofString text).contains n.stop = false := by
  constructor
  · rintro ⟨e, failed⟩
    obtain ⟨_, n, found, outside, -⟩ := (attachComments_eq_error_iff_first built e).mp failed
    exact ⟨n, Array.mem_of_getElem? found, outside⟩
  · rintro ⟨n, member, outside⟩
    -- the node at fault is listed with its number, so the check finds a first fault
    obtain ⟨i, found⟩ := Array.mem_iff_getElem?.mp member
    have listed : (n, i) ∈ t.nodes.toList.zipIdx := by
      simpa [List.mem_zipIdx_iff_getElem?] using found
    have faulty : ((SourceText.ofString text).positionFault n i).isSome := by
      rw [built.positionFault _ member, if_neg]
      · rfl
      · rcases outside with outside | outside <;> simp [outside]
    obtain ⟨e, first⟩ := Option.isSome_iff_exists.mp
      ((List.findSome?_isSome_iff (f := fun p : Node × Nat =>
        (SourceText.ofString text).positionFault p.1 p.2)).mpr ⟨(n, i), listed, faulty⟩)
    exact ⟨e, by rw [attachComments_eq_error_iff, checkPositions_eq, elim_eq_error]; exact first⟩

end Tree

theorem CommentPiece.isCommentLine {text : List Char} {s : String}
    (piece : CommentPiece text s.toList) (lone : NoLoneCr text) : IsCommentLine (trimStart s) := by
  obtain ⟨rest, whole⟩ := List.head?_eq_some_iff.mp piece.hash
  have kept : trimStart s = s := by
    unfold trimStart dropWhite
    rw [whole, List.dropWhile_cons_of_neg (by decide), ← whole, String.ofList_toList]
  rw [kept]
  refine ⟨?_, piece.noLf, piece.noCr lone⟩
  rw [String.startsWith_string_iff, whole]
  simp

/-- Attaching the comments of `text` to a tree built by `push` fails exactly when a node has a
position outside the text, and then names the first such node in arena order, its start before
its end. Otherwise every stored comment is a piece of the text that starts with `#` and holds no
line feed, nor a carriage return when every carriage return of the text starts a `\r\n` break;
writing the result then never refuses a comment. -/
theorem attachComments_refuses_outside_stores_pieces (text : String) (t : Tree)
    (built : t.Built) :
    (∀ e, t.attachComments text = .error e ↔
      ∃ i n, t.nodes[i]? = some n ∧
        ((SourceText.ofString text).contains n.start = false ∨
          (SourceText.ofString text).contains n.stop = false) ∧
        (∀ j m, j < i → t.nodes[j]? = some m →
          (SourceText.ofString text).contains m.start = true ∧
            (SourceText.ofString text).contains m.stop = true) ∧
        e = .positionOutOfBounds i
          (if (SourceText.ofString text).contains n.start then n.stop else n.start)
          (SourceText.ofString text).lineCount) ∧
    ((∃ e, t.attachComments text = .error e) ↔
      ∃ n ∈ t.nodes, (SourceText.ofString text).contains n.start = false ∨
        (SourceText.ofString text).contains n.stop = false) ∧
    ∀ a, t.attachComments text = .ok a →
      (∀ s ∈ a.comments.all, CommentPiece text.toList s.toList) ∧
      (NoLoneCr text.toList → ∀ indent i s, a.render indent ≠ .error (.malformedComment i s)) := by
  refine ⟨Tree.attachComments_eq_error_iff_first built, Tree.attachComments_fails_iff built,
    fun a attached => ?_⟩
  rw [Tree.attachComments_eq_ok attached]
  refine ⟨Tree.walkComments_stored, fun lone indent i s rendered => ?_⟩
  -- a refused comment would be a stored one that is no comment line
  obtain ⟨x, member, wrong⟩ := AnnotatedTree.malformed_of_render built rendered rfl
  exact wrong ((Tree.walkComments_stored x member).isCommentLine lone)

/-- The scalar `a` of the text `a # note`. -/
def notedSampleNodes : List Node :=
  [{ kind := .scalar { value := "a" }, start := ⟨0, 0⟩, stop := ⟨0, 1⟩ }]

def notedSample : Tree := ((Tree.empty.pushAll notedSampleNodes).toOption).getD Tree.empty

theorem notedSample_attach_stores_pieces :
    notedSample.Built ∧
      ∀ a, notedSample.attachComments "a # note\n" = .ok a →
        (∀ s ∈ a.comments.all, CommentPiece "a # note\n".toList s.toList) ∧
        (NoLoneCr "a # note\n".toList →
          ∀ indent i s, a.render indent ≠ .error (.malformedComment i s)) :=
  have built : notedSample.Built := @Tree.Built.pushAll _ _ notedSampleNodes Tree.Built.empty rfl
  ⟨built, (attachComments_refuses_outside_stores_pieces "a # note\n" notedSample built).2.2⟩

end AnnotatedYaml
