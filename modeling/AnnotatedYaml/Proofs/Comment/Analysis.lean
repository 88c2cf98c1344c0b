import AnnotatedYaml.Proofs.Comment.Pieces
import AnnotatedYaml.Proofs.Hoare

/-! The comment analyzer stores only comments cut from the text it reads, and looks up no node
outside its tree. -/

namespace AnnotatedYaml

open Text

namespace Analyzer

section Runs

variable {α β σ : Type} {pre : Analyzer → Prop}

/-- Run from a state that satisfies `pre`, `m` answers `x` and ends in a state `b` with
`post x b`. -/
def Runs (pre : Analyzer → Prop) (m : M α) (post : α → Analyzer → Prop) : Prop :=
  Hoare pre (ofStateM (ε := Empty) m) post fun _ => True

theorem Runs.run {m : M α} {post : α → Analyzer → Prop} (runs : Runs pre m post) {a : Analyzer}
    (holds : pre a) : post (m.run a).1 (m.run a).2 :=
  hoare_ofStateM_iff.mp runs a holds

theorem Runs.intro {m : M α} {post : α → Analyzer → Prop}
    (each : ∀ a, pre a → Runs (· = a) m post) : Runs pre m post :=
  Hoare.intro each

theorem Runs.pure {post : α → Analyzer → Prop} {x : α} (holds : ∀ a, pre a → post x a) :
    Runs pre (Pure.pure x : M α) post := by
  rw [Runs, ofStateM_pure]
  exact Hoare.pure x holds

theorem Runs.bind {mid : α → Analyzer → Prop} {post : β → Analyzer → Prop} {m : M α}
    {f : α → M β} (first : Runs pre m mid) (rest : ∀ x, Runs (mid x) (f x) post) :
    Runs pre (m >>= f) post := by
  rw [Runs, ofStateM_bind]
  exact Hoare.bind first rest

theorem Runs.get : Runs pre (MonadState.get : M Analyzer) fun x b => pre b ∧ x = b := by
  rw [Runs, ofStateM_get]
  exact Hoare.get fun _ holds => ⟨holds, rfl⟩

theorem Runs.set {b : Analyzer} : Runs pre (MonadStateOf.set b : M PUnit) fun _ s => s = b := by
  rw [Runs, ofStateM_set]
  exact Hoare.set b fun _ _ => rfl

theorem Runs.modify {g : Analyzer → Analyzer} :
    Runs pre (modify g : M PUnit) fun _ s => ∃ a, pre a ∧ s = g a := by
  rw [Runs, ofStateM_modify]
  exact Hoare.modify g fun a holds => ⟨a, holds, rfl⟩

theorem Runs.forIn_from (inv : List β → σ → Analyzer → Prop) {f : β → σ → M (ForInStep σ)}
    (step : ∀ done x acc, Runs (inv done acc) (f x acc) fun r b =>
      ∃ acc', r = .yield acc' ∧ inv (done ++ [x]) acc' b)
    (xs : List β) {acc : σ} {b : Analyzer} (start : inv [] acc b) :
    Runs (· = b) (ForIn.forIn xs acc f) (inv xs) := by
  rw [Runs, ofStateM_forIn]
  exact Hoare.mono (Hoare.forIn_prefix xs inv (fun done x _ acc _ => step done x acc) acc)
    (fun _ same => same ▸ start) (fun _ _ holds => holds) fun _ failed => failed

end Runs

section Keeps

variable {α β σ : Type} {I : Analyzer → Prop}

variable (I) in
/-- Run from a state in `I`, `m` ends in a state in `I` with a result that satisfies `post`. -/
def Keeps (m : M α) (post : α → Prop) : Prop :=
  Runs I m fun x b => post x ∧ I b

theorem Keeps.run {m : M α} {post : α → Prop} (keeps : Keeps I m post) {a : Analyzer}
    (holds : I a) : post (m.run a).1 ∧ I (m.run a).2 :=
  Runs.run keeps holds

theorem Keeps.pure (x : α) : Keeps I (Pure.pure x : M α) fun y => y = x :=
  Runs.pure fun _ holds => ⟨rfl, holds⟩

theorem Keeps.unit : Keeps I (Pure.pure () : M Unit) fun _ => True :=
  Runs.pure fun _ holds => ⟨trivial, holds⟩

theorem Keeps.bind {m : M α} {f : α → M β} {P : α → Prop} {Q : β → Prop} (first : Keeps I m P)
    (rest : ∀ x, P x → Keeps I (f x) Q) : Keeps I (m >>= f) Q :=
  Runs.bind first fun x => Hoare.assume (rest x)

theorem Keeps.mono {m : M α} {P Q : α → Prop} (keeps : Keeps I m P) (weaker : ∀ x, P x → Q x) :
    Keeps I m Q :=
  Hoare.mono keeps (fun _ holds => holds) (fun x _ kept => kept.imp_left (weaker x))
    fun _ failed => failed

theorem Keeps.get : Keeps I (MonadState.get : M Analyzer) I :=
  Hoare.mono Runs.get (fun _ holds => holds) (fun _ _ ⟨holds, same⟩ => ⟨same ▸ holds, holds⟩)
    fun _ failed => failed

theorem Keeps.set {b : Analyzer} (holds : I b) : Keeps I (MonadStateOf.set b : M PUnit)
    fun _ => True :=
  Hoare.mono Runs.set (fun _ start => start) (fun _ _ same => ⟨trivial, same ▸ holds⟩)
    fun _ failed => failed

theorem Keeps.modify {f : Analyzer → Analyzer} (step : ∀ a, I a → I (f a)) :
    Keeps I (modify f : M PUnit) fun _ => True :=
  Hoare.mono Runs.modify (fun _ start => start)
    (fun _ _ ⟨a, holds, same⟩ => ⟨trivial, same ▸ step a holds⟩) fun _ failed => failed

theorem Keeps.ite {c : Prop} [Decidable c] {m m' : M α} {P : α → Prop} (yes : c → Keeps I m P)
    (no : ¬c → Keeps I m' P) : Keeps I (if c then m else m') P := by
  by_cases holds : c
  · simpa only [if_pos holds] using yes holds
  · simpa only [if_neg holds] using no holds

theorem Keeps.forIn (xs : List β) (J : σ → Prop) {init : σ} {f : β → σ → M (ForInStep σ)}
    (start : J init) (step : ∀ x ∈ xs, ∀ s, J s → Keeps I (f x s) fun r => J r.value) :
    Keeps I (ForIn.forIn xs init f) J := by
  rw [Keeps, Runs, ofStateM_forIn]
  exact Hoare.mono (Hoare.forIn (fun b a => J b ∧ I a) xs
      (fun x member b => Hoare.assume (step x member b)) init)
    (fun _ holds => ⟨start, holds⟩) (fun _ _ kept => kept) fun _ failed => failed

theorem Keeps.forEach (xs : List β) {init : σ} {f : β → σ → M (ForInStep σ)}
    (step : ∀ x ∈ xs, ∀ s, Keeps I (f x s) fun _ => True) :
    Keeps I (ForIn.forIn xs init f) fun _ => True :=
  Keeps.forIn xs (fun _ => True) trivial fun x member s _ => step x member s

end Keeps

/-- The analyzer reads `text` and has stored only comments cut from it. -/
structure Reads (text : String) (a : Analyzer) : Prop where
  source : a.source = SourceText.ofString text
  stored : ∀ s ∈ a.comments.all, CommentPiece text.toList s.toList

namespace Reads

variable {text : String} {a : Analyzer}

theorem of_stored (reads : Reads text a) {b : Analyzer} (same : b.source = a.source)
    (stored : ∀ s ∈ b.comments.all, s ∈ a.comments.all ∨ CommentPiece text.toList s.toList) :
    Reads text b := by
  refine ⟨same.trans reads.source, fun s member => ?_⟩
  rcases stored s member with old | new
  · exact reads.stored s old
  · exact new

theorem addLeading (reads : Reads text a) (i : Nat) {xs : List String}
    (pieces : ∀ s ∈ xs, CommentPiece text.toList s.toList) :
    Reads text { a with comments := a.comments.addLeading i xs } :=
  reads.of_stored rfl fun _ member =>
    (Comments.mem_all_addLeading member).imp_right (pieces _)

theorem addTrailing (reads : Reads text a) (i : Nat) {xs : List String}
    (pieces : ∀ s ∈ xs, CommentPiece text.toList s.toList) :
    Reads text { a with comments := a.comments.addTrailing i xs } :=
  reads.of_stored rfl fun _ member =>
    (Comments.mem_all_addTrailing member).imp_right (pieces _)

theorem setLineEnd (reads : Reads text a) (i : Nat) {x : String}
    (piece : CommentPiece text.toList x.toList) (last : Position) :
    Reads text { a with comments := a.comments.setLineEnd i x, last := last } :=
  reads.of_stored rfl fun _ member =>
    (Comments.mem_all_setLineEnd member).imp_right fun same => by
      rw [List.mem_singleton.mp same]
      exact piece

end Reads

variable {text : String}

theorem readComments_keeps (upto : Position) :
    Keeps (Reads text) (readComments upto)
      fun found => ∀ s ∈ found, CommentPiece text.toList s.toList := by
  unfold readComments
  apply Keeps.bind Keeps.get
  intro a reads
  dsimp only
  have items : ∀ s, GapItem.comment s ∈ gapItems (a.source.slice a.last upto) →
      CommentPiece text.toList s.toList := by
    rw [reads.source]
    exact gapItems_commentPiece _ (SourceText.slice_infix text _ _)
  refine Keeps.bind (Keeps.set (reads.of_stored ?same fun _ member => .inl member)) fun _ _ => ?_
  case same => rfl
  -- the buffered comments are pieces of the text all along the loop
  apply Keeps.bind (Keeps.forIn _ (fun buffered => ∀ s ∈ buffered,
    CommentPiece text.toList s.toList) (by simp) ?step)
  · intro found pieces
    exact (Keeps.pure _).mono fun _ same => same ▸ pieces
  case step =>
    intro item member buffered pieces
    split
    · split
      · apply Keeps.ite
        · intro _
          apply Keeps.bind (Keeps.modify fun b readsB => readsB.addLeading _ pieces)
          intro _ _
          exact (Keeps.pure _).mono fun _ same => by simp [same]
        · intro _
          exact (Keeps.pure _).mono fun _ same => same ▸ pieces
      · exact (Keeps.pure _).mono fun _ same => same ▸ pieces
    · rename_i s
      refine (Keeps.pure _).mono fun _ same => ?_
      rw [same]
      intro x inside
      rcases List.mem_append.mp inside with old | new
      · exact pieces x old
      · exact List.mem_singleton.mp new ▸ items s member

theorem lead_keeps (id : Nat) (upto : Position) :
    Keeps (Reads text) (lead id upto) fun _ => True := by
  unfold lead
  apply Keeps.bind (readComments_keeps upto)
  intro found pieces
  exact Keeps.ite (fun _ => Keeps.modify fun _ reads => reads.addLeading id pieces)
    (fun _ => Keeps.unit)

theorem trail_keeps (id : Nat) (upto : Position) :
    Keeps (Reads text) (trail id upto) fun _ => True := by
  unfold trail
  apply Keeps.bind (readComments_keeps upto)
  intro found pieces
  exact Keeps.ite (fun _ => Keeps.modify fun _ reads => reads.addTrailing id pieces)
    (fun _ => Keeps.unit)

theorem blockHeaderComment_keeps (id : Nat) (start : Position) :
    Keeps (Reads text) (blockHeaderComment id start) fun _ => True := by
  unfold blockHeaderComment
  apply Keeps.bind Keeps.get
  intro a reads
  dsimp only
  split
  · exact Keeps.unit
  · rename_i at0 found
    refine Keeps.set (reads.setLineEnd id ?_ _)
    rw [reads.source] at found ⊢
    exact CommentPiece.header start found

theorem sameLineComment_keeps (id : Nat) (stop : Position) :
    Keeps (Reads text) (sameLineComment id stop) fun _ => True := by
  unfold sameLineComment
  apply Keeps.bind Keeps.get
  intro a reads
  dsimp only
  apply Keeps.ite
  · intro found
    simp only [Bool.and_eq_true, beq_iff_eq, decide_eq_true_eq] at found
    obtain ⟨hash, before⟩ := found
    refine Keeps.set (reads.setLineEnd id ?_ _)
    rw [reads.source] at hash before ⊢
    exact CommentPiece.restOfLine hash (by simp only [Position.shift]; omega)
  · intro _
    exact Keeps.unit

theorem Reads.moved {a : Analyzer} (reads : Reads text a) (last : Position) (owner : Option Nat) :
    Reads text { a with last := last, bulletOwner := owner } :=
  reads.of_stored rfl fun _ member => .inl member

theorem lookup_keeps (id : Nat) : Keeps (Reads text) (lookup id) fun _ => True := by
  refine Keeps.modify fun a reads => ?_
  split
  · exact reads
  · exact reads.of_stored rfl fun _ member => .inl member

theorem visit_keeps : ∀ (fuel id : Nat), Keeps (Reads text) (visit fuel id) fun _ => True
  | 0, _ => Keeps.unit
  | fuel + 1, id => by
    -- one step of the walk: read the state, then act on the node it finds
    show Keeps (Reads text) (lookup id >>= fun _ => MonadState.get >>= _) _
    refine Keeps.bind (lookup_keeps id) fun _ _ => ?_
    apply Keeps.bind Keeps.get
    intro a reads
    dsimp only
    split
    · rename_i n found
      split
      case h_1 | h_2 =>
        -- a scalar or an alias: its leading comments, then one on its header or last line
        refine Keeps.bind (lead_keeps id n.start) fun _ _ =>
          Keeps.bind (Keeps.modify fun _ moved => moved.moved _ _) fun _ _ => ?_
        first
          | exact Keeps.ite (fun _ => blockHeaderComment_keeps _ _)
              (fun _ => sameLineComment_keeps _ _)
          | exact sameLineComment_keeps _ _
      case h_3 | h_4 =>
        -- with or without an opening bracket, the children are walked, then what closes it read
        refine Keeps.ite (fun _ => Keeps.bind (lead_keeps id n.start) fun _ _ => ?_) (fun _ => ?_)
        all_goals
          refine Keeps.bind (Keeps.forEach _ fun child _ _ => ?step) fun _ _ => ?tail
          case step =>
            refine Keeps.ite (fun _ => Keeps.bind (Keeps.modify fun _ moved => moved.moved _ _)
              fun _ _ => ?_) (fun _ => ?_)
            all_goals exact Keeps.bind (visit_keeps fuel child) fun _ _ =>
              (Keeps.pure _).mono fun _ _ => trivial
          case tail =>
            exact Keeps.ite (fun _ => Keeps.bind (trail_keeps _ _) fun _ _ =>
              sameLineComment_keeps _ _) (fun _ => Keeps.unit)
      case h_5 d _ =>
        -- perhaps the leading comments of an explicit start, the root, perhaps those before `...`
        refine Keeps.ite (fun _ => Keeps.bind (lead_keeps id n.start) fun _ _ => ?_) (fun _ => ?_)
        all_goals exact Keeps.bind (visit_keeps fuel d.root) fun _ _ =>
          Keeps.ite (fun _ => trail_keeps _ _) (fun _ => Keeps.unit)
      case h_6 docs _ =>
        refine Keeps.bind (Keeps.forEach docs fun doc _ _ => ?_) fun _ _ => ?last
        case last =>
          -- the last document is looked up before the trailing comments are read
          split
          · exact Keeps.bind (lookup_keeps _) fun _ _ => trail_keeps _ _
          · exact trail_keeps _ _
        exact Keeps.bind (visit_keeps fuel doc) fun _ _ => (Keeps.pure _).mono fun _ _ => trivial
    · exact Keeps.unit

/-! ### The walk stays inside the tree -/

/-- The analyzer walks `t` and has looked up no node outside it. -/
structure InTree (t : Tree) (a : Analyzer) : Prop where
  tree : a.tree = t
  unpanicked : a.panicked = none

section InTree

variable {t : Tree}

theorem lookup_inTree {id : Nat} (inside : id < t.size) :
    Keeps (InTree t) (lookup id) fun _ => True := by
  refine Keeps.modify fun a inTree => ?_
  rw [if_pos (by simp [inTree.tree, inside])]
  exact inTree

theorem yield_inTree {σ : Type} (s : σ) :
    Keeps (InTree t) (Pure.pure (ForInStep.yield s) : M (ForInStep σ)) fun _ => True :=
  (Keeps.pure _).mono fun _ _ => trivial

theorem readComments_inTree (upto : Position) :
    Keeps (InTree t) (readComments upto) fun _ => True := by
  unfold readComments
  refine Keeps.bind Keeps.get fun a inTree => ?_
  refine Keeps.bind (Keeps.set ⟨inTree.tree, inTree.unpanicked⟩) fun _ _ => ?_
  refine Keeps.bind (Keeps.forEach _ fun item _ buffered => ?_) fun _ _ =>
    (Keeps.pure _).mono fun _ _ => trivial
  split
  · split
    · exact Keeps.ite (fun _ => Keeps.bind (Keeps.modify fun _ inTree => ⟨inTree.tree, inTree.unpanicked⟩) fun _ _ =>
        yield_inTree _) fun _ => yield_inTree _
    · exact yield_inTree _
  · exact yield_inTree _

theorem lead_inTree (id : Nat) (upto : Position) :
    Keeps (InTree t) (lead id upto) fun _ => True := by
  unfold lead
  exact Keeps.bind (readComments_inTree upto) fun _ _ =>
    Keeps.ite (fun _ => Keeps.modify fun _ inTree => ⟨inTree.tree, inTree.unpanicked⟩) fun _ => Keeps.unit

theorem trail_inTree (id : Nat) (upto : Position) :
    Keeps (InTree t) (trail id upto) fun _ => True := by
  unfold trail
  exact Keeps.bind (readComments_inTree upto) fun _ _ =>
    Keeps.ite (fun _ => Keeps.modify fun _ inTree => ⟨inTree.tree, inTree.unpanicked⟩) fun _ => Keeps.unit

theorem blockHeaderComment_inTree (id : Nat) (start : Position) :
    Keeps (InTree t) (blockHeaderComment id start) fun _ => True := by
  unfold blockHeaderComment
  refine Keeps.bind Keeps.get fun a inTree => ?_
  dsimp only
  split
  · exact Keeps.unit
  · exact Keeps.set ⟨inTree.tree, inTree.unpanicked⟩

theorem sameLineComment_inTree (id : Nat) (stop : Position) :
    Keeps (InTree t) (sameLineComment id stop) fun _ => True := by
  unfold sameLineComment
  refine Keeps.bind Keeps.get fun a inTree => ?_
  exact Keeps.ite (fun _ => Keeps.set ⟨inTree.tree, inTree.unpanicked⟩) fun _ => Keeps.unit

/-- From a node of the tree, the walk looks up nodes of the tree only: it goes down from a node
to its children, and the last document of a stream is one of them. -/
theorem visit_inTree : ∀ (fuel id : Nat), id < t.size →
    Keeps (InTree t) (visit fuel id) fun _ => True
  | 0, _, _ => Keeps.unit
  | fuel + 1, id, inside => by
    show Keeps (InTree t) (lookup id >>= fun _ => MonadState.get >>= _) _
    refine Keeps.bind (lookup_inTree inside) fun _ _ => ?_
    refine Keeps.bind Keeps.get fun a inTree => ?_
    dsimp only
    split
    · rename_i n found
      rw [inTree.tree] at found
      have below : ∀ c ∈ n.kind.children, c < t.size := fun c child =>
        Nat.lt_trans (Tree.lt_of_get?_children found child) inside
      split
      case h_1 | h_2 =>
        -- a scalar or an alias: its leading comments, then one on its header or last line
        refine Keeps.bind (lead_inTree id n.start) fun _ _ =>
          Keeps.bind (Keeps.modify fun _ inTree => ⟨inTree.tree, inTree.unpanicked⟩) fun _ _ => ?_
        first
          | exact Keeps.ite (fun _ => blockHeaderComment_inTree _ _)
              (fun _ => sameLineComment_inTree _ _)
          | exact sameLineComment_inTree _ _
      case h_3 col kind | h_4 col kind =>
        -- with or without an opening bracket, the children are walked, then what closes it read
        have items : ∀ c ∈ col.children, c < t.size := fun c member =>
          below c (by rw [kind]; exact member)
        refine Keeps.ite (fun _ => Keeps.bind (lead_inTree id n.start) fun _ _ => ?_) (fun _ => ?_)
        all_goals
          refine Keeps.bind (Keeps.forEach _ fun child member _ => ?step) fun _ _ => ?tail
          case step =>
            refine Keeps.ite (fun _ => Keeps.bind (Keeps.modify fun _ inTree => ⟨inTree.tree, inTree.unpanicked⟩)
              fun _ _ => ?_) (fun _ => ?_)
            all_goals exact Keeps.bind (visit_inTree fuel child (items child member)) fun _ _ =>
              yield_inTree _
          case tail =>
            exact Keeps.ite (fun _ => Keeps.bind (trail_inTree _ _) fun _ _ =>
              sameLineComment_inTree _ _) (fun _ => Keeps.unit)
      case h_5 d kind =>
        -- perhaps the leading comments of an explicit start, the root, perhaps those before `...`
        have root : d.root < t.size := below d.root (by simp [kind, NodeKind.children])
        refine Keeps.ite (fun _ => Keeps.bind (lead_inTree id n.start) fun _ _ => ?_) (fun _ => ?_)
        all_goals exact Keeps.bind (visit_inTree fuel d.root root) fun _ _ =>
          Keeps.ite (fun _ => trail_inTree _ _) (fun _ => Keeps.unit)
      case h_6 docs kind =>
        have listed : ∀ doc ∈ docs, doc < t.size := fun doc member =>
          below doc (by rw [kind]; exact member)
        refine Keeps.bind (Keeps.forEach docs fun doc member _ => ?_) fun _ _ => ?last
        case last =>
          -- the last document is looked up before the trailing comments are read
          split
          · rename_i last isLast
            exact Keeps.bind (lookup_inTree (listed last (List.mem_of_getLast? isLast)))
              fun _ _ => trail_inTree _ _
          · exact trail_inTree _ _
        exact Keeps.bind (visit_inTree fuel doc (listed doc member)) fun _ _ => yield_inTree _
    · exact Keeps.unit

/-- However the tree is shared, the analyzer started on a node of the tree never looks up a
node outside it. -/
theorem visit_unpanicked {a : Analyzer} (fuel : Nat) {r : Nat} (inside : r < a.tree.size)
    (calm : a.panicked = none) : ((visit fuel r).run a).2.panicked = none :=
  ((visit_inTree (t := a.tree) fuel r inside).run ⟨rfl, calm⟩).2.unpanicked

end InTree

end Analyzer

end AnnotatedYaml
