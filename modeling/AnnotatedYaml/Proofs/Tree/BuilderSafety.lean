import AnnotatedYaml.Proofs.Tree.Builder
import AnnotatedYaml.Proofs.Tree.Shape
import AnnotatedYaml.Proofs.Text.Addressing

/-! The builder never panics: it looks up only nodes it built, leaves only flow collections it
entered, and slices the text at character boundaries. -/

namespace AnnotatedYaml

open Syntax Text

namespace Builder

/-- What building a node keeps: the text, the depth of flow collections and the floor of the
next document, while the tree only grows. -/
structure Grows (b b' : Builder) : Prop where
  source : b'.source = b.source
  inFlow : b'.inFlow = b.inFlow
  docFloor : b'.docFloor = b.docFloor
  size_le : b.tree.size ≤ b'.tree.size

theorem Grows.refl (b : Builder) : b.Grows b := ⟨rfl, rfl, rfl, Nat.le_refl _⟩

theorem Grows.next (b : Builder) : b.Grows { b with pos := b.pos + 1 } :=
  ⟨rfl, rfl, rfl, Nat.le_refl _⟩

theorem Grows.of_next {b b' : Builder} (grows : Grows { b with pos := b.pos + 1 } b') :
    b.Grows b' :=
  ⟨grows.source, grows.inFlow, grows.docFloor, grows.size_le⟩

theorem Grows.trans {b b' b'' : Builder} (first : b.Grows b') (second : b'.Grows b'') :
    b.Grows b'' :=
  ⟨second.source.trans first.source, second.inFlow.trans first.inFlow,
    second.docFloor.trans first.docFloor, Nat.le_trans first.size_le second.size_le⟩

/-- What the document loop keeps: the builder reads `text`, and the floor of the next document
is a character boundary of it. -/
structure OnText (text : String) (b : Builder) : Prop where
  source : b.source = SourceText.ofString text
  floor : (SourceText.ofString text).isBoundary b.docFloor = true

end Builder

namespace Build

/-- Run from `b`, `x` raises no panic, and when it succeeds its result and last builder satisfy
`Q`. -/
def SafeFrom {α : Type} (b : Builder) (x : Build α) (Q : α → Builder → Prop) : Prop :=
  Hoare (· = b) x Q fun e => e.isPanic = false

section

variable {b : Builder}

open Builder

/-! Steps that read on or look up, and keep the tree as it is. -/

theorem bump_safe : SafeFrom b bump fun _ b' => b' = { b with pos := b.pos + 1 } :=
  Hoare.modify _ fun _ same => by rw [same]

theorem advance_safe : SafeFrom b advance fun _ b' => b.Grows b' := by
  unfold advance
  refine Hoare.get_bind (Hoare.bind (Hoare.set _ (Q := fun _ b' => b.Grows b') fun _ _ =>
    ⟨rfl, rfl, rfl, Nat.le_refl _⟩) fun _ => Hoare.pure _ fun _ grows => grows)

theorem peek_safe : SafeFrom b peek fun _ b' => b' = b := by
  unfold peek
  exact Hoare.get_bind (Hoare.get_bind (Hoare.pure _ fun _ same => same))

theorem node_safe {id : Nat} (inside : id < b.tree.size) : SafeFrom b (node id) fun _ b' => b' = b := by
  unfold node
  refine Hoare.get_bind ?_
  rw [Tree.get?, Array.getElem?_eq_getElem inside]
  exact Hoare.pure _ fun _ same => same

theorem leaveFlow_safe {flow : Bool} (entered : flow = true → 0 < b.inFlow) :
    SafeFrom b (leaveFlow flow) fun _ b' =>
      b' = { b with inFlow := if flow then b.inFlow - 1 else b.inFlow } := by
  unfold leaveFlow
  refine Hoare.get_bind ?_
  cases flow with
  | false => exact Hoare.pure () fun _ same => same
  | true =>
    have positive := entered rfl
    rw [if_pos rfl, if_neg (by omega)]
    exact Hoare.set _ fun _ _ => rfl

theorem checkSlice_safe {source : SourceText} {lo hi : Nat} (ordered : lo ≤ hi)
    (atLo : source.isBoundary lo = true) (atHi : source.isBoundary hi = true) :
    SafeFrom b (checkSlice source lo hi) fun _ b' => b' = b := by
  unfold checkSlice
  rw [if_pos (by simp [ordered, atLo, atHi])]
  exact Hoare.pure () fun _ same => same

theorem directivesBefore_safe {source : SourceText} {floor : Nat} {marker : Option Nat}
    (sliced : ∀ m ∈ marker,
      floor ≤ m ∧ source.isBoundary floor = true ∧ source.isBoundary m = true) :
    SafeFrom b (directivesBefore source floor marker) fun _ b' => b' = b := by
  unfold directivesBefore
  split
  · exact Hoare.pure _ fun _ same => same
  · rename_i m
    obtain ⟨ordered, atFloor, atMarker⟩ := sliced m rfl
    exact Hoare.bind (checkSlice_safe ordered atFloor atMarker) fun _ =>
      Hoare.pure _ fun _ same => same

theorem anchorName_safe (id : Nat) : SafeFrom b (anchorName id) fun _ b' => b' = b := by
  unfold anchorName
  split
  · exact Hoare.pure _ fun _ same => same
  · refine Hoare.get_bind ?_
    split
    · exact Hoare.pure _ fun _ same => same
    · exact Hoare.throw rfl

theorem childLookup_safe {f : Node → Position} {kid : Option Nat}
    (inside : ∀ c ∈ kid, c < b.tree.size) :
    SafeFrom b (kid.mapM fun c => do return f (← node c)) fun _ b' => b' = b := by
  cases kid with
  | none => exact Hoare.pure none fun _ same => same
  | some c =>
    rw [Option.mapM_some]
    exact Hoare.bind (Hoare.bind (R := fun _ b' => b' = b) (node_safe (inside c rfl)) fun _ =>
      Hoare.pure _ fun _ same => same) fun _ => Hoare.pure _ fun _ same => same

/-! Steps that add a node. -/

theorem push_safe (kind : NodeKind) (start stop : Position) :
    SafeFrom b (push kind start stop) fun id b' => b.Grows b' ∧ id < b'.tree.size := by
  unfold push
  refine Hoare.get_bind ?_
  rcases b.tree.push_cases { kind, start, stop := max stop start } with
    ⟨t', pushed, nodes, -⟩ | ⟨e, refused, calm⟩
  · have grown : t'.size = b.tree.size + 1 := by
      simp [Tree.size, nodes]
    rw [pushed]
    exact Hoare.bind (Hoare.set _ (Q := fun _ b' => b.Grows b' ∧ b.tree.size < b'.tree.size)
      fun _ _ => ⟨⟨rfl, rfl, rfl, by simp [grown]⟩, by simp [grown]⟩)
      fun _ => Hoare.pure _ fun _ holds => holds
  · rw [refused]
    exact Hoare.throw calm

theorem scalar_safe (value : String) (style : ScalarStyle) (anchorId : Nat) (tag : Option Tag)
    (span : Span) :
    SafeFrom b (scalar value style anchorId tag span) fun id b' =>
      b.Grows b' ∧ id < b'.tree.size := by
  unfold scalar
  refine Hoare.bind_run (anchorName_safe anchorId) fun _ b1 _ same => ?_
  subst b1
  refine Hoare.get_bind ?_
  split <;> exact push_safe _ _ _

theorem aliasRef_safe (anchorId : Nat) (span : Span) :
    SafeFrom b (aliasRef anchorId span) fun id b' => b.Grows b' ∧ id < b'.tree.size := by
  unfold aliasRef
  refine Hoare.get_bind ?_
  dsimp only
  -- whether the name is read from the text, and then whether it is empty
  split
  all_goals
    split
    · refine Hoare.bind_run (anchorName_safe anchorId) fun _ b1 _ same => ?_
      subst b1
      split
      · exact push_safe _ _ _
      · exact Hoare.throw rfl
    · exact push_safe _ _ _

theorem collection_safe {fuel : Nat} {isMapping : Bool} {anchorId : Nat} {tag : Option Tag}
    {span : Span}
    (kids : ∀ b', SafeFrom b' (children fuel #[]) fun r b'' =>
      b'.Grows b'' ∧ ∀ c ∈ r, c < b''.tree.size) :
    SafeFrom b (collection fuel isMapping anchorId tag span) fun id b' =>
      b.Grows b' ∧ id < b'.tree.size := by
  unfold collection
  refine Hoare.get_bind ?_
  dsimp only
  refine Hoare.bind_run (Hoare.set _ (Q := fun _ b' => b' = _) fun _ _ => rfl)
    fun _ b1 _ entered => ?_
  subst entered
  refine Hoare.bind_run (kids _) fun items b2 _ post => ?_
  obtain ⟨grown, built⟩ := post
  refine Hoare.bind_run advance_safe fun _ b3 _ advanced => ?_
  -- a flow collection raised the depth on entry, and nothing below changed it since
  have inFlow := advanced.inFlow.trans grown.inFlow
  refine Hoare.bind_run (leaveFlow_safe fun flow => by simp [inFlow, flow]) fun _ b4 _ left => ?_
  subst left
  have inside : ∀ c ∈ items, c < b3.tree.size := fun c member =>
    Nat.lt_of_lt_of_le (built c member) advanced.size_le
  refine Hoare.get_bind ?_
  refine Hoare.bind_run (childLookup_safe fun c found => inside c (Array.mem_of_back? found))
    fun _ b5 _ same => ?_
  subst same
  refine Hoare.bind_run (childLookup_safe fun c found => inside c (Array.mem_of_getElem? found))
    fun _ b6 _ same => ?_
  subst same
  refine Hoare.bind_run (anchorName_safe _) fun _ b7 _ same => ?_
  subst same
  refine Hoare.mono (push_safe _ _ _) (fun _ same => same)
    (fun id b' post => ⟨?_, post.2⟩) fun _ calm => calm
  have pushed := post.1
  have sizes := Nat.le_trans grown.size_le (Nat.le_trans advanced.size_le pushed.size_le)
  refine ⟨?_, ?_, ?_, sizes⟩
  · rw [pushed.source, advanced.source, grown.source]
  · rw [pushed.inFlow]
    dsimp only
    rw [inFlow]
    split <;> simp_all
  · rw [pushed.docFloor, advanced.docFloor, grown.docFloor]

/-- A node read from one event: the builder moves past the event, then builds the node. -/
theorem afterBump_safe {x : Build Nat}
    (built : SafeFrom { b with pos := b.pos + 1 } x
      fun id b' => Grows { b with pos := b.pos + 1 } b' ∧ id < b'.tree.size) :
    SafeFrom b (bump >>= fun _ => x >>= fun r => Pure.pure (some r))
      fun r b' => b.Grows b' ∧ ∀ c ∈ r, c < b'.tree.size := by
  refine Hoare.bind_run bump_safe fun _ b1 _ bumped => ?_
  subst bumped
  exact Hoare.bind built fun r => Hoare.pure _ fun _ post =>
    ⟨post.1.of_next, fun c same => by cases same; exact post.2⟩

/-- Building a node, or the items of a collection, raises no panic and answers nodes of the
tree it leaves. The induction is on the fuel, as for the events the builder reads. -/
theorem buildNode_safe (fuel : Nat) : ∀ b : Builder,
    SafeFrom b (buildNode fuel) (fun r b' => b.Grows b' ∧ ∀ c ∈ r, c < b'.tree.size) ∧
      ∀ acc : Array Nat, (∀ c ∈ acc, c < b.tree.size) →
        SafeFrom b (children fuel acc) fun r b' => b.Grows b' ∧ ∀ c ∈ r, c < b'.tree.size := by
  induction fuel with
  | zero =>
    intro b
    refine ⟨?_, fun acc inside => ?_⟩
    · rw [buildNode]
      exact Hoare.pure _ fun _ same => by
        subst same
        exact ⟨Grows.refl _, by simp⟩
    · rw [children]
      exact Hoare.pure _ fun _ same => by
        subst same
        exact ⟨Grows.refl _, inside⟩
  | succ f ih =>
    intro b
    refine ⟨fun s same => ?_, fun acc inside => ?_⟩
    · subst s
      show Outcome _ _ ((buildNode (f + 1)).run b)
      rw [buildNode_run]
      split
      · exact afterBump_safe (scalar_safe _ _ _ _ _) b rfl
      · exact afterBump_safe (collection_safe fun b' => (ih b').2 #[] (by simp)) b rfl
      · exact afterBump_safe (collection_safe fun b' => (ih b').2 #[] (by simp)) b rfl
      · exact afterBump_safe (aliasRef_safe _ _) b rfl
      · exact ⟨Grows.refl b, by simp⟩
    · rw [children]
      refine Hoare.bind_run peek_safe fun e b1 _ same => ?_
      subst b1
      have unchanged : ∀ b', b' = b → b.Grows b' ∧ ∀ c ∈ acc, c < b'.tree.size := by
        intro b' same
        subst same
        exact ⟨Grows.refl _, inside⟩
      split
      · exact Hoare.pure acc unchanged
      · split
        · exact Hoare.pure acc unchanged
        · refine Hoare.bind_run (ih b).1 fun r b2 _ post => ?_
          obtain ⟨grown, built⟩ := post
          have kept : ∀ c ∈ acc, c < b2.tree.size := fun c member =>
            Nat.lt_of_lt_of_le (inside c member) grown.size_le
          split
          · -- an item built: it joins the items
            rename_i c
            refine Hoare.mono ((ih b2).2 _ fun x member => ?_) (fun _ same => same)
              (fun _ _ post => ⟨grown.trans post.1, post.2⟩) fun _ calm => calm
            rcases Array.mem_push.mp member with old | rfl
            · exact kept x old
            · exact built x rfl
          · -- nothing built: the event is skipped
            refine Hoare.bind_run bump_safe fun _ b3 _ bumped => ?_
            subst bumped
            refine Hoare.mono ((ih { b2 with pos := b2.pos + 1 }).2 acc kept) (fun _ same => same)
              (fun _ _ post => ⟨grown.trans post.1.of_next, post.2⟩)
              fun _ calm => calm

theorem rootOr_safe {built : Option Nat} (inside : ∀ r ∈ built, r < b.tree.size) :
    SafeFrom b (rootOr built) fun r b' => b.Grows b' ∧ r < b'.tree.size := by
  unfold rootOr
  split
  · rename_i r
    exact Hoare.pure r fun _ same => by
      subst same
      exact ⟨Grows.refl _, inside r rfl⟩
  · exact Hoare.get_bind (push_safe _ _ _)

theorem documentStop_safe (rootStop : Position) :
    SafeFrom b (documentStop rootStop) fun _ b' => b.Grows b' := by
  unfold documentStop
  refine Hoare.bind_run peek_safe fun e b1 _ same => ?_
  subst b1
  split
  · refine Hoare.bind_run bump_safe fun _ b2 _ bumped => Hoare.get_bind ?_
    subst bumped
    split <;> exact Hoare.pure _ fun _ same => by
      subst same
      exact Grows.next _
  · exact Hoare.pure _ fun _ same => by
      subst same
      exact Grows.refl _

/-- A document slices the text from its floor to its `---` line, both boundaries, and leaves
the floor of the next document at the boundary where it ends. -/
theorem document_safe {text : String} (fuel : Nat) (onText : b.OnText text) :
    SafeFrom b (document fuel) fun _ b' => b'.OnText text := by
  unfold document
  refine Hoare.bind_run advance_safe fun _ b1 _ advanced => ?_
  refine Hoare.get_bind ?_
  dsimp only
  have source : b1.source = SourceText.ofString text := advanced.source.trans onText.source
  have floor : (SourceText.ofString text).isBoundary b1.docFloor = true := by
    rw [advanced.docFloor]
    exact onText.floor
  refine Hoare.bind_run (directivesBefore_safe fun m found => ?_) fun _ b2 _ same => ?_
  · -- the marker is looked for at the start of a line from the floor on
    split at found
    · rw [source] at found ⊢
      obtain ⟨after, atMarker⟩ := SourceText.findMarkerLine_boundary found
      exact ⟨after, floor, atMarker⟩
    · cases found
  subst b2
  refine Hoare.bind_run (Hoare.set _ (Q := fun _ b' => b' = _) fun _ _ => rfl)
    fun _ b3 _ same => ?_
  subst same
  refine Hoare.bind_run (buildNode_safe fuel _).1 fun _ b4 _ post => ?_
  obtain ⟨grown, built⟩ := post
  refine Hoare.bind_run (rootOr_safe built) fun root b5 _ post => ?_
  obtain ⟨grown', rootInside⟩ := post
  refine Hoare.bind_run (node_safe rootInside) fun _ b6 _ same => ?_
  subst b6
  refine Hoare.bind_run (documentStop_safe _) fun _ b7 _ stopped => ?_
  refine Hoare.bind_run (push_safe _ _ _) fun _ b8 _ post => ?_
  have pushed := post.1
  have kept : b8.source = SourceText.ofString text := by
    rw [pushed.source, stopped.source, grown'.source, grown.source]
    exact source
  refine Hoare.bind (Hoare.modify _ (Q := fun _ b' => b'.OnText text) fun _ same => ?_)
    fun _ => Hoare.pure _ fun _ onText' => onText'
  subst same
  exact ⟨kept, by rw [kept]; exact SourceText.isBoundary_byteOffset _⟩

theorem docs_safe {text : String} (fuel : Nat) :
    ∀ n (acc : Array Nat) (b : Builder), b.OnText text →
      SafeFrom b (stream.docs fuel n acc) fun _ b' => b'.OnText text
  | 0, acc, b, onText => by
    rw [stream.docs]
    exact Hoare.pure acc fun _ same => by
      subst same
      exact onText
  | n + 1, acc, b, onText => by
    rw [stream.docs]
    refine Hoare.bind_run peek_safe fun _ b1 _ same => ?_
    subst b1
    have unchanged : ∀ b', b' = b → b'.OnText text := by
      intro b' same
      subst same
      exact onText
    split
    · exact Hoare.bind_run (document_safe fuel onText) fun _ b2 _ onText' =>
        docs_safe fuel n _ b2 onText'
    · exact Hoare.pure acc unchanged
    · exact Hoare.pure acc unchanged
    · refine Hoare.bind_run bump_safe fun _ b2 _ bumped => ?_
      subst bumped
      exact docs_safe fuel n acc _ ⟨onText.source, onText.floor⟩

theorem stream_safe {text : String} (fuel : Nat) (onText : b.OnText text) :
    SafeFrom b (stream fuel) fun _ _ => True := by
  unfold stream
  refine Hoare.get_bind (Hoare.bind_run (docs_safe fuel _ #[] b onText) fun _ b1 _ _ => ?_)
  refine Hoare.get_bind (Hoare.bind_run (push_safe _ _ _) fun _ b2 _ _ => ?_)
  exact Hoare.get_bind (Hoare.pure _ fun _ _ => trivial)

theorem stream_error (text : String) (fuel : Nat) (onText : b.OnText text) {e : Error}
    (failed : (stream fuel).run' b = .error e) : e.isPanic = false := by
  have answered : (fun r => r.1) <$> (stream fuel).run b = .error e := failed
  cases ran : (stream fuel).run b with
  | ok r =>
    rw [ran] at answered
    cases answered
  | error e' =>
    rw [ran] at answered
    cases answered
    exact (stream_safe fuel onText).error_of rfl ran

end

end Build

/-- Building the tree of a text from its events never panics: it fails, if at all, for a cause
that the events or the text give. -/
theorem Tree.ofEvents_error_not_panic {text : String} {events : Array (Event × Span)} {e : Error}
    (failed : Tree.ofEvents text events = .error e) : e.isPanic = false := by
  unfold Tree.ofEvents at failed
  refine Build.stream_error text _ ?_ failed
  exact ⟨rfl, SourceText.isBoundary_zero⟩

end AnnotatedYaml
