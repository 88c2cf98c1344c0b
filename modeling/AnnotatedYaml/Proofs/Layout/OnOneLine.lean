import AnnotatedYaml.Proofs.Layout.WrittenOnce
import AnnotatedYaml.Proofs.Scalar.InlineReading

/-! What the writer keeps on one line: inside a flow collection, a node with no comments and no name
that breaks a line. -/

namespace AnnotatedYaml

/-- The names a node writes: its anchor and its tag, or for an alias the anchor it names. -/
def NodeKind.names : NodeKind → List String
  | .scalar s => s.anchor.toList ++ s.tag.toList
  | .mapping c | .sequence c => c.anchor.toList ++ c.tag.toList
  | .alias name => [name]
  | .document _ | .stream _ => []

/-- Whether node `i` writes no name with a line break. -/
def Tree.namesOnOneLine (t : Tree) (i : Nat) : Bool :=
  (((t.kind? i).map NodeKind.names).getD []).all fun n => !n.toList.contains '\n'

/-- Whether node `i` carries no comment and writes no name with a line break. -/
def Tree.isQuiet (t : Tree) (c : Comments) (i : Nat) : Bool :=
  (c.get i).isEmpty && t.namesOnOneLine i

def TagScope.onOneLine (scope : TagScope) : Bool :=
  scope.handles.all fun h => !h.1.toList.contains '\n'

theorem NodeKind.anchor_mem_names {k : NodeKind} {a : String} (h : k.anchor = some a) :
    a ∈ k.names := by
  cases k <;> simp_all [NodeKind.anchor, NodeKind.names]

theorem NodeKind.tag_mem_names {k : NodeKind} {tag : String} (h : k.tag = some tag) :
    tag ∈ k.names := by
  cases k <;> simp_all [NodeKind.tag, NodeKind.names]

theorem Tree.names_onOneLine {t : Tree} {i : Nat} {k : NodeKind} (found : t.kind? i = some k)
    (names : t.namesOnOneLine i = true) : ∀ n ∈ k.names, '\n' ∉ n.toList := by
  intro n member
  rw [Tree.namesOnOneLine, found, Option.map_some, Option.getD_some] at names
  simpa using List.all_eq_true.mp names n member

theorem Comments.parts_of_isEmpty {c : Comments} {i : Nat} (empty : (c.get i).isEmpty = true) :
    c.leading i = [] ∧ c.trailing i = [] ∧ c.lineEnd i = none := by
  simp only [Attachment.isEmpty, Bool.and_eq_true, List.isEmpty_iff,
    Option.isNone_iff_eq_none] at empty
  exact ⟨empty.1.1, empty.1.2, empty.2⟩

theorem mem_of_foldl_eq_some {β : Type} {g : Option β → β → Option β}
    (picks : ∀ acc y, g acc y = acc ∨ g acc y = some y) :
    ∀ (xs : List β) (acc : Option β) {x : β}, xs.foldl g acc = some x → acc = some x ∨ x ∈ xs
  | [], _, _, last => .inl last
  | y :: ys, acc, x, last => by
    rcases mem_of_foldl_eq_some picks ys (g acc y) last with first | later
    · rcases picks acc y with kept | taken
      · exact .inl (kept ▸ first)
      · rw [taken, Option.some.injEq] at first
        exact .inr (first ▸ List.mem_cons_self)
    · exact .inr (List.mem_cons_of_mem y later)

/-- The short form of a tag holds no line break when neither the tag nor a handle does: it is
`!`, a handle followed by the rest of the tag, or the tag in `!<` and `>`. -/
theorem TagScope.render_onOneLine {scope : TagScope} {tag : String} (handles : scope.onOneLine = true)
    (inLine : '\n' ∉ tag.toList) : '\n' ∉ (scope.render tag).toList := by
  unfold render
  split
  · simp
  · dsimp only
    split
    · rename_i best handle size suffix chosen
      have picks := mem_of_foldl_eq_some (fun acc y => by
        cases acc with
        | none => exact .inr rfl
        | some z =>
          dsimp only
          split
          · exact .inr rfl
          · exact .inl rfl) _ none chosen
      obtain ⟨⟨h, e⟩, member, fits⟩ := List.mem_filterMap.mp (picks.resolve_left (by simp))
      simp only [Option.ite_none_right_eq_some, Option.some.injEq, Prod.mk.injEq] at fits
      obtain ⟨-, -, rfl, -, rfl⟩ := fits
      have handle : '\n' ∉ h.toList := by
        simpa using List.all_eq_true.mp handles (h, e) member
      simpa [handle] using fun inSuffix => inLine (List.mem_of_mem_drop inSuffix)
    · simpa using inLine

namespace LineWriter

/-- `f` only adds text after what is written, and no line break. -/
def StaysOnLine (f : LineWriter → LineWriter) : Prop :=
  ∀ w, ∃ s : List Char, (f w).out.toList = w.out.toList ++ s ∧ '\n' ∉ s

theorem write_out (w : LineWriter) (depth : Nat) {text : String} (nonempty : text ≠ "") :
    ∃ pre : List Char, (w.write depth text).out.toList = w.out.toList ++ pre ++ text.toList ∧
      ∀ x ∈ pre, x = ' ' := by
  have written : text.isEmpty = false := by simpa using nonempty
  cases cursor : w.cursor with
  | wordEnd => exact ⟨[' '], by simp [write, written, cursor], by simp⟩
  | lineStart =>
    exact ⟨List.replicate (w.unit * depth) ' ', by simp [write, written, cursor, pad],
      fun _ member => List.eq_of_mem_replicate member⟩
  | start => exact ⟨[], by simp [write, written, cursor], by simp⟩
  | inLine => exact ⟨[], by simp [write, written, cursor], by simp⟩
  | bulletEnd => exact ⟨[], by simp [write, written, cursor], by simp⟩

theorem write_staysOnLine (depth : Nat) {text : String} (inLine : '\n' ∉ text.toList) :
    StaysOnLine (·.write depth text) := by
  intro w
  by_cases empty : text = ""
  · subst empty
    refine ⟨[], ?_, by simp⟩
    unfold write
    dsimp only
    split
    · split <;> simp
    · rename_i nonempty
      simp at nonempty
  · obtain ⟨pre, written, spaces⟩ := w.write_out depth empty
    refine ⟨pre ++ text.toList, by rw [written, List.append_assoc], ?_⟩
    simp only [List.mem_append, not_or]
    exact ⟨fun member => by simpa using spaces _ member, inLine⟩

theorem place_staysOnLine (p : Placement) : StaysOnLine (·.place p) :=
  fun w => ⟨[], by simp [place], by simp⟩

theorem space_staysOnLine : StaysOnLine (·.space) := by
  intro w
  refine ⟨[], ?_, by simp⟩
  show w.space.out.toList = w.out.toList ++ []
  unfold space
  split <;> simp

end LineWriter

namespace Emit

section

variable {α β : Type}

/-- `w` continues the last line of `w₀`: it adds text after it, and no line break. -/
def ContinuesLine (w₀ w : LineWriter) : Prop :=
  ∃ s : List Char, w.out.toList = w₀.out.toList ++ s ∧ '\n' ∉ s

theorem ContinuesLine.refl (w : LineWriter) : ContinuesLine w w := ⟨[], by simp, by simp⟩

theorem ContinuesLine.trans {w₀ w₁ w₂ : LineWriter} (first : ContinuesLine w₀ w₁)
    (second : ContinuesLine w₁ w₂) : ContinuesLine w₀ w₂ := by
  obtain ⟨s, grown, inLine⟩ := first
  obtain ⟨s', grown', inLine'⟩ := second
  exact ⟨s ++ s', by rw [grown', grown, List.append_assoc], by simp [inLine, inLine']⟩

/-- Run from any writer, `m` only adds text after what is written, and no line break, whenever
it succeeds. -/
def OnLine (m : Emit α) : Prop :=
  ∀ w₀, Hoare (· = w₀) m (fun _ => ContinuesLine w₀) fun _ => True

theorem OnLine.extend {m : Emit α} (on : OnLine m) (w₀ : LineWriter) :
    Hoare (ContinuesLine w₀) m (fun _ => ContinuesLine w₀) fun _ => True :=
  Hoare.intro fun w grown => Hoare.mono (on w) (fun _ same => same)
    (fun _ _ more => grown.trans more) fun _ failed => failed

theorem OnLine.pure (a : α) : OnLine (Pure.pure a : Emit α) := fun _ =>
  Hoare.pure a fun w same => same ▸ ContinuesLine.refl w

theorem OnLine.bind {m : Emit α} {f : α → Emit β} (first : OnLine m) (rest : ∀ a, OnLine (f a)) :
    OnLine (m >>= f) := fun w₀ =>
  Hoare.bind (first w₀) fun a => (rest a).extend w₀

theorem OnLine.out {f : LineWriter → LineWriter} (stays : LineWriter.StaysOnLine f) :
    OnLine (Emit.out f) := fun _ =>
  Hoare.modify f fun w same => same ▸ stays w

theorem OnLine.get : OnLine (MonadState.get : Emit LineWriter) := fun _ =>
  Hoare.get fun w same => same ▸ ContinuesLine.refl w

theorem OnLine.throw (e : Error) : OnLine (MonadExcept.throw e : Emit α) := fun _ =>
  Hoare.throw trivial

theorem OnLine.ite {c : Prop} [Decidable c] {m m' : Emit α} (yes : c → OnLine m)
    (no : ¬c → OnLine m') : OnLine (if c then m else m') := fun w₀ =>
  Hoare.ite (fun holds => yes holds w₀) fun fails => no fails w₀

theorem OnLine.forIn {σ : Type} (xs : List β) (s : σ) {f : β → σ → Emit (ForInStep σ)}
    (step : ∀ x ∈ xs, ∀ s, OnLine (f x s)) : OnLine (ForIn.forIn xs s f) := fun w₀ =>
  Hoare.mono (Hoare.forIn (fun _ => ContinuesLine w₀) xs
      (fun x member b => (step x member b).extend w₀) s)
    (fun w same => same ▸ ContinuesLine.refl w) (fun _ _ grown => grown) fun _ failed => failed

theorem OnLine.afterWrite {m : Emit β} (depth : Nat) {text : String} (inLine : '\n' ∉ text.toList)
    (rest : OnLine m) : OnLine (Emit.out (·.write depth text) >>= fun _ => m) :=
  OnLine.bind (OnLine.out (LineWriter.write_staysOnLine depth inLine)) fun _ => rest

theorem OnLine.afterLookup {m : Emit β} (t : Tree) (id : Nat) (rest : OnLine m) :
    OnLine (Emit.lookup t id >>= fun _ => m) := by
  refine OnLine.bind ?_ fun _ => rest
  unfold Emit.lookup
  split
  · exact OnLine.pure ()
  · exact OnLine.throw _

theorem OnLine.afterSpace {m : Emit β} (rest : OnLine m) :
    OnLine (Emit.out (·.space) >>= fun _ => m) :=
  OnLine.bind (OnLine.out LineWriter.space_staysOnLine) fun _ => rest

theorem OnLine.separated {m : Emit β} (i depth : Nat) (item : OnLine m) :
    OnLine (if i > 0 then do Emit.out (·.write depth ","); Emit.out (·.space); m else m) :=
  OnLine.ite (fun _ => OnLine.afterWrite depth (by simp) (OnLine.afterSpace item)) fun _ => item

theorem OnLine.bind_write {m : Emit α} (first : OnLine m) (depth : Nat) {text : String}
    (nonempty : text ≠ "") {w w' : LineWriter}
    (ran : (m >>= fun _ => Emit.out (·.write depth text)) w = .ok ((), w')) :
    ∃ s : List Char, w'.out.toList = w.out.toList ++ s ++ text.toList ∧ '\n' ∉ s := by
  rw [bind_apply] at ran
  split at ran
  · rename_i a v middle
    obtain ⟨s, grown, inLine⟩ := (first w).ok_of rfl middle
    cases ran
    obtain ⟨pre, written, spaces⟩ := v.write_out depth nonempty
    refine ⟨s ++ pre, by rw [written, grown]; simp only [List.append_assoc], ?_⟩
    simp only [List.mem_append, not_or]
    exact ⟨inLine, fun member => by simpa using spaces _ member⟩
  · cases ran

end

theorem comments_nil_onLine (id depth : Nat) : OnLine (comments id depth []) := by
  unfold comments
  exact OnLine.bind (OnLine.forIn [] _ (by simp)) fun _ => OnLine.pure _

section

variable {t : Tree} {c : Comments} {claims : BulletClaims}

theorem inlineEnd_onLine {id : Nat} (frame : Frame) (noLineEnd : c.lineEnd id = none)
    (noTrailing : c.trailing id = []) : OnLine (inlineEnd c id frame) := by
  simp only [inlineEnd, lineEnd, noLineEnd, noTrailing, pure_bind, Bool.false_eq_true, if_false]
  exact comments_nil_onLine id frame.depth

/-- A scalar that is written inline stays on one line: no way of writing a value inline puts a
line break in it. -/
theorem scalar_onLine {id : Nat} (s : Scalar) (frame : Frame)
    (inline : frame.flow = true ∨ s.style.isBlock = false) (noLineEnd : c.lineEnd id = none)
    (noTrailing : c.trailing id = []) : OnLine (scalar c id s frame) := by
  unfold scalar
  apply OnLine.bind OnLine.get
  intro writer
  dsimp only
  split
  · rename_i text written
    have inLine : '\n' ∉ text.toList := fun member => by
      simpa [Yaml.isBreak] using encode_inline_no_break written '\n' member
    exact OnLine.afterWrite frame.depth inLine (inlineEnd_onLine frame noLineEnd noTrailing)
  · rename_i header lines written
    -- only a block scalar outside flow collections is written as a block
    unfold Scalar.encode at written
    cases style : s.style <;> simp only [style] at written
    all_goals repeat' split at written
    all_goals simp_all [ScalarStyle.isBlock]

theorem properties_onLine (k : NodeKind) (frame : Frame) (handles : frame.tags.onOneLine = true)
    (names : ∀ n ∈ k.names, '\n' ∉ n.toList) : OnLine (properties k frame) := by
  have anchorLine : ∀ a, k.anchor = some a → '\n' ∉ ("&" ++ a).toList := fun a anchor => by
    simpa using names a (NodeKind.anchor_mem_names anchor)
  have tagLine : ∀ tag, k.tag = some tag → '\n' ∉ (frame.tags.render tag).toList :=
    fun tag tagged => TagScope.render_onOneLine handles (names tag (NodeKind.tag_mem_names tagged))
  unfold properties
  -- the anchor, then the tag, each when the node has one
  cases anchor : k.anchor <;> cases tag : k.tag <;> dsimp only
  · exact OnLine.pure ()
  · exact OnLine.afterWrite frame.depth (tagLine _ tag) (OnLine.out LineWriter.space_staysOnLine)
  · exact OnLine.afterWrite frame.depth (anchorLine _ anchor) (OnLine.afterSpace (OnLine.pure ()))
  · exact OnLine.afterWrite frame.depth (anchorLine _ anchor) (OnLine.afterSpace
      (OnLine.afterWrite frame.depth (tagLine _ tag) (OnLine.out LineWriter.space_staysOnLine)))

/-- The frame of the items of a flow collection written in `frame`. -/
abbrev flowInner (frame : Frame) : Frame := { frame with depth := frame.depth + 1, flow := true }

theorem flowSequence_onLine (F id : Nat) (kids : List Nat) (frame : Frame)
    (noLineEnd : c.lineEnd id = none) (noTrailing : c.trailing id = [])
    (items : ∀ G < F, ∀ k ∈ kids, OnLine (node t c claims G k (flowInner frame))) :
    OnLine (flowSequence t c claims F id kids frame) := by
  cases F with
  | zero =>
    rw [flowSequence]
    exact OnLine.pure ()
  | succ G =>
    rw [flowSequence]
    apply OnLine.afterWrite frame.depth (by simp)
    apply OnLine.bind (OnLine.forIn _ _ ?step)
    case step =>
      rintro ⟨child, i⟩ member _
      apply OnLine.separated i (frame.depth + 1)
      exact OnLine.bind (items G (Nat.lt_succ_self G) child (List.fst_mem_of_mem_zipIdx member))
        fun _ => OnLine.pure _
    intro _
    exact OnLine.afterWrite frame.depth (by simp) (inlineEnd_onLine frame noLineEnd noTrailing)

theorem flowMapping_onLine (F id : Nat) (kids : List Nat) (frame : Frame)
    (noLineEnd : c.lineEnd id = none) (noTrailing : c.trailing id = [])
    (items : ∀ G < F, ∀ k ∈ kids, OnLine (node t c claims G k (flowInner frame))) :
    OnLine (flowMapping t c claims F id kids frame) := by
  cases F with
  | zero =>
    rw [flowMapping]
    exact OnLine.pure ()
  | succ G =>
    rw [flowMapping]
    apply OnLine.afterWrite frame.depth (by simp)
    apply OnLine.bind (OnLine.forIn _ _ ?step)
    case step =>
      rintro ⟨⟨key, value⟩, i⟩ member _
      obtain ⟨inKey, inValue⟩ := mem_of_mem_pairsOf (List.fst_mem_of_mem_zipIdx member)
      have entry := items G (Nat.lt_succ_self G)
      apply OnLine.separated i (frame.depth + 1)
      apply OnLine.bind (entry key inKey)
      intro _
      -- the value, after its `:`, unless it is a bare null
      have colon := OnLine.afterWrite (frame.depth + 1) (by simp : '\n' ∉ (":" : String).toList)
        (OnLine.afterSpace (OnLine.bind (entry value inValue) fun _ => OnLine.pure (ForInStep.yield ())))
      apply OnLine.afterLookup t value
      exact OnLine.ite (fun _ => OnLine.afterLookup t key
          (OnLine.ite (fun _ => OnLine.afterSpace colon) (fun _ => colon)))
        (fun _ => OnLine.pure _)
    intro _
    exact OnLine.afterWrite frame.depth (by simp) (inlineEnd_onLine frame noLineEnd noTrailing)

theorem rendersInFlow_of_inline {id : Nat} {col : Collection} {inFlow : Bool}
    (found : t.kind? id = some (.mapping col) ∨ t.kind? id = some (.sequence col))
    (inline : inFlow = true ∨ t.needsExplicitKey c id = false) : t.rendersInFlow id inFlow = true := by
  rcases inline with flow | implicit
  · rcases found with found | found <;> simp [Tree.rendersInFlow, found, flow]
  · have block : t.rendersInFlow id false = true := by
      rcases found with found | found <;> simp_all [Tree.needsExplicitKey]
    rcases found with found | found <;> cases inFlow <;> simp_all [Tree.rendersInFlow]

/-- The content of a node stays on one line when the node carries no line-end or trailing
comment, writes no name with a line break, is written inline where it stands, and the nodes
right below it stay on one line inside it. -/
theorem content_onLine (F id : Nat) (frame : Frame) (handles : frame.tags.onOneLine = true)
    (noLineEnd : c.lineEnd id = none) (noTrailing : c.trailing id = [])
    (names : t.namesOnOneLine id = true)
    (inline : frame.flow = true ∨ t.needsExplicitKey c id = false)
    (items : ∀ G < F, ∀ k ∈ t.childrenOf id, OnLine (node t c claims G k (flowInner frame))) :
    OnLine (content t c claims F id frame) := by
  cases F with
  | zero =>
    rw [content]
    exact OnLine.pure ()
  | succ G =>
    rw [content]
    apply OnLine.afterLookup t id
    cases found : t.kind? id with
    | none => exact OnLine.pure ()
    | some k =>
      have kids : t.childrenOf id = k.children := by simp [Tree.childrenOf, found]
      have below : ∀ G' < G, ∀ j ∈ k.children, OnLine (node t c claims G' j (flowInner frame)) :=
        fun G' lower j member => items G' (by omega) j (kids ▸ member)
      apply OnLine.bind (OnLine.out (LineWriter.place_staysOnLine frame.placement))
      intro _
      apply OnLine.bind (properties_onLine k frame handles (Tree.names_onOneLine found names))
      intro _
      cases k with
      | scalar s =>
        refine scalar_onLine s frame ?_ noLineEnd noTrailing
        rcases inline with flow | implicit
        · exact .inl flow
        · simp_all [Tree.needsExplicitKey]
      | «alias» name =>
        have inLine := Tree.names_onOneLine found names name (by simp [NodeKind.names])
        exact OnLine.afterWrite frame.depth (by simpa using inLine)
          (inlineEnd_onLine frame noLineEnd noTrailing)
      | mapping col =>
        dsimp only
        rw [if_pos (rendersInFlow_of_inline (.inl found) inline)]
        exact flowMapping_onLine G id col.children frame noLineEnd noTrailing below
      | sequence col =>
        dsimp only
        rw [if_pos (rendersInFlow_of_inline (.inr found) inline)]
        exact flowSequence_onLine G id col.children frame noLineEnd noTrailing below
      | document d => exact OnLine.throw _
      | stream docs => exact OnLine.throw _

theorem node_onLine (F id : Nat) (frame : Frame) (noLeading : c.leading id = [])
    (rest : ∀ G < F, OnLine (content t c claims G id frame)) :
    OnLine (node t c claims F id frame) := by
  cases F with
  | zero =>
    rw [node]
    exact OnLine.pure ()
  | succ G =>
    rw [node, noLeading]
    exact OnLine.ite (fun _ => OnLine.bind (comments_nil_onLine id frame.depth)
      fun _ => rest G (Nat.lt_succ_self G)) (fun _ => rest G (Nat.lt_succ_self G))

/-- Inside a flow collection, a node all of whose nodes carry no comment and write no name with
a line break stays on one line. -/
theorem node_onLine_of_quiet (F : Nat) {id : Nat} {frame : Frame} (inside : id < t.size)
    (flow : frame.flow = true) (handles : frame.tags.onOneLine = true)
    (quiet : ∀ j ∈ t.preorder id, t.isQuiet c j = true) : OnLine (node t c claims F id frame) := by
  -- The induction is on the fuel: the writer spends some from a node to the nodes below it.
  induction F using Nat.strong_induction_on generalizing id frame with
  | _ F ih =>
  have self := quiet id (Tree.mem_preorder_self inside)
  simp only [Tree.isQuiet, Bool.and_eq_true] at self
  obtain ⟨noLeading, noTrailing, noLineEnd⟩ := Comments.parts_of_isEmpty self.1
  refine node_onLine F id frame noLeading fun G lower => ?_
  refine content_onLine G id frame handles noLineEnd noTrailing self.2 (.inl flow) ?_
  intro G' lower' j member
  have below := Tree.lt_of_mem_childrenOf member
  exact ih G' (by omega) (by omega) rfl handles
    fun y hy => quiet y (Tree.preorder_subset_of_child member y hy)

end

/-- What a block mapping writes for a pair in the implicit form, from the key's content after
its leading comments up to and with the `:`. -/
def implicitKey (t : Tree) (c : Comments) (claims : BulletClaims) (fuel key depth : Nat)
    (frame : Frame) : Emit Unit := do
  content t c claims fuel key frame
  if t.needsSpaceBeforeColon key then out (·.space)
  out (·.write depth ":")

end Emit

open Emit in
/-- A key that a block mapping writes before its `:` stays on the line where its content starts,
when no node below it carries a comment and none of its nodes writes a name with a line break:
from the key's content, after its leading comments, up to and with the `:`, the writer adds no
line break. This is the text a block mapping writes for a pair that needs no explicit `? `. -/
theorem implicitKey_on_one_line {t : Tree} {c : Comments} {claims : BulletClaims}
    {fuel key depth : Nat} {frame : Frame} (implicit : t.needsExplicitKey c key = false)
    (uncommented : ∀ j ∈ t.preorder key, j ≠ key → t.isQuiet c j = true)
    (names : t.namesOnOneLine key = true) (handles : frame.tags.onOneLine = true)
    {w w' : LineWriter} (written : implicitKey t c claims fuel key depth frame w = .ok ((), w')) :
    ∃ s : List Char, w'.out.toList = w.out.toList ++ s ++ [':'] ∧ '\n' ∉ s := by
  have ends : c.trailing key = [] ∧ c.lineEnd key = none := by
    simp_all [Tree.needsExplicitKey]
  have items : ∀ G < fuel, ∀ k ∈ t.childrenOf key,
      OnLine (node t c claims G k (flowInner frame)) := by
    intro G _ k member
    have below := Tree.lt_of_mem_childrenOf member
    refine node_onLine_of_quiet G (Nat.lt_trans below (Tree.lt_size_of_mem_childrenOf member)) rfl
      handles fun j hj => uncommented j (Tree.preorder_subset_of_child member j hj) ?_
    have := Tree.le_of_mem_preorder hj
    omega
  have keyOnLine := content_onLine fuel key frame handles ends.2 ends.1 names (.inr implicit) items
  unfold implicitKey at written
  dsimp only at written
  -- the space owed before the `:` of an alias, then the `:`
  by_cases spaced : t.needsSpaceBeforeColon key = true
  · simp only [spaced, if_true] at written
    rw [← bind_assoc] at written
    exact OnLine.bind_write (OnLine.bind keyOnLine fun _ => OnLine.out LineWriter.space_staysOnLine)
      depth (by decide) written
  · simp only [spaced] at written
    exact OnLine.bind_write keyOnLine depth (by decide) written

/-- `[a]: v`, a mapping whose key is a flow sequence, with the given comments. -/
def flowKeySample (comments : Comments) : AnnotatedTree :=
  let nodes : List Node :=
    [{ kind := .scalar { value := "a" } }, { kind := .sequence { children := [0], style := .flow } },
      { kind := .scalar { value := "v" } }, { kind := .mapping { children := [1, 2] } }]
  match Tree.empty.pushAll nodes with
  | .ok t => ⟨t, comments⟩
  | .error _ => ⟨Tree.empty, comments⟩

/-- The sample with a comment above its key. -/
def quietKeySample : AnnotatedTree := flowKeySample { slots := #[{}, { leading := ["# k"] }, {}, {}] }

theorem Emit.exists_of_map_out {m : Emit Unit} {w : LineWriter} {text : String}
    (ran : (m w).map (·.2.out) = .ok text) : ∃ w', m w = .ok ((), w') ∧ w'.out = text := by
  cases run : m w with
  | error e =>
    rw [run] at ran
    cases ran
  | ok r =>
    rw [run] at ran
    cases ran
    exact ⟨r.2, rfl, rfl⟩

theorem quietKeySample_on_one_line :
    quietKeySample.tree.needsExplicitKey quietKeySample.comments 1 = false ∧
      (∀ j ∈ quietKeySample.tree.preorder 1, j ≠ 1 →
        quietKeySample.tree.isQuiet quietKeySample.comments j = true) ∧
      quietKeySample.tree.namesOnOneLine 1 = true ∧ TagScope.standard.onOneLine = true ∧
      ∃ w', Emit.implicitKey quietKeySample.tree quietKeySample.comments
          (BulletClaims.collect quietKeySample.tree quietKeySample.comments) 8 1 0
          (Frame.top TagScope.standard) { unit := 2 } = .ok ((), w') ∧ w'.out = "[a]:" ∧
        ∃ s : List Char, w'.out.toList = ({ unit := 2 } : LineWriter).out.toList ++ s ++ [':'] ∧
          '\n' ∉ s := by
  have implicit : quietKeySample.tree.needsExplicitKey quietKeySample.comments 1 = false := by
    decide +kernel
  have uncommented : ∀ j ∈ quietKeySample.tree.preorder 1, j ≠ 1 →
      quietKeySample.tree.isQuiet quietKeySample.comments j = true := by
    decide +kernel
  have names : quietKeySample.tree.namesOnOneLine 1 = true := by decide +kernel
  have handles : TagScope.standard.onOneLine = true := by decide +kernel
  obtain ⟨w', written, text⟩ := Emit.exists_of_map_out (by decide +kernel :
    (Emit.implicitKey quietKeySample.tree quietKeySample.comments
      (BulletClaims.collect quietKeySample.tree quietKeySample.comments) 8 1 0
      (Frame.top TagScope.standard) { unit := 2 }).map (·.2.out) = .ok "[a]:")
  exact ⟨implicit, uncommented, names, handles, w', written, text,
    implicitKey_on_one_line implicit uncommented names handles written⟩

/-- The sample with a comment on the item inside its key: the key is still written before its
`:`, but over three lines. -/
def commentedKeySample : AnnotatedTree :=
  flowKeySample { slots := #[{ leading := ["# c"] }, {}, {}, {}] }

theorem commentedKey_breaks_line :
    commentedKeySample.tree.needsExplicitKey commentedKeySample.comments 1 = false ∧
      (Emit.implicitKey commentedKeySample.tree commentedKeySample.comments
          (BulletClaims.collect commentedKeySample.tree commentedKeySample.comments) 8 1 0
          (Frame.top TagScope.standard) { unit := 2 }).map (·.2.out) = .ok "[\n  # c\n  a]:" := by
  decide +kernel

end AnnotatedYaml
