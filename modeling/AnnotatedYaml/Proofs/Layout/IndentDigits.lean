import AnnotatedYaml.Proofs.Layout.TidyLines

/-! Block scalars get indentation digits of one or two units: every frame the writer records stands
near its block base. -/

namespace AnnotatedYaml

/-- A frame outside flow collections stands at its block base or one level below it. -/
def Placement.NearBase (p : Placement) : Prop :=
  p.flow = false → p.blockBase ≤ p.depth ∧ p.depth ≤ p.blockBase + 1

namespace Frame

variable (frame : Frame)

/-! The frames the writer builds, each near its base. -/

theorem top_nearBase (tags : TagScope) : (Frame.top tags).placement.NearBase :=
  fun _ => ⟨le_rfl, Nat.zero_le _⟩

theorem nearBase_of_base {frame : Frame} (base : frame.blockBase = frame.depth) :
    frame.placement.NearBase :=
  fun _ => ⟨base.le, by simp [placement, base]⟩

theorem entry_nearBase : { frame with blockBase := frame.depth }.placement.NearBase :=
  nearBase_of_base rfl

theorem deeper_nearBase {frame : Frame} (base : frame.blockBase = frame.depth) :
    { frame with depth := frame.depth + 1 }.placement.NearBase :=
  fun _ => ⟨by simp [placement, base], by simp [placement, base]⟩

theorem item_nearBase :
    { frame with depth := frame.depth + 1, blockBase := frame.depth }.placement.NearBase :=
  fun _ => ⟨by simp [placement], le_rfl⟩

theorem flow_nearBase : { frame with depth := frame.depth + 1, flow := true }.placement.NearBase :=
  fun inFlow => absurd inFlow (by simp [placement])

end Frame

namespace LineWriter

/-- The indentation unit is `u`, and every frame recorded so far stands near its block base. -/
def Placed (u : Nat) (w : LineWriter) : Prop := w.unit = u ∧ ∀ p ∈ w.placements, p.NearBase

/-- A step that writes text only: it keeps the indentation unit and records no frame. -/
def WritesOnly (f : LineWriter → LineWriter) : Prop :=
  ∀ w, (f w).unit = w.unit ∧ (f w).placements = w.placements

variable {u : Nat} {w : LineWriter}

theorem WritesOnly.placed {f : LineWriter → LineWriter} (only : WritesOnly f) (placed : w.Placed u) :
    (f w).Placed u := by
  obtain ⟨same, kept⟩ := only w
  exact ⟨same.trans placed.1, kept ▸ placed.2⟩

theorem place_placed {p : Placement} (near : p.NearBase) (placed : w.Placed u) :
    (w.place p).Placed u := by
  refine ⟨placed.1, fun q member => ?_⟩
  rcases List.mem_append.mp member with old | last
  · exact placed.2 q old
  · rw [List.mem_singleton.mp last]
    exact near

theorem placed_start (u : Nat) : ({ unit := u } : LineWriter).Placed u :=
  ⟨rfl, fun _ member => absurd member List.not_mem_nil⟩

theorem write_writesOnly (depth : Nat) (text : String) : WritesOnly (·.write depth text) := by
  intro w
  dsimp only
  unfold write
  split
  · split <;> exact ⟨rfl, rfl⟩
  · split <;> exact ⟨rfl, rfl⟩

theorem writeComment_writesOnly (depth : Nat) (text : String) :
    WritesOnly (·.writeComment depth text) :=
  fun w => write_writesOnly depth text w

theorem space_writesOnly : WritesOnly space := by
  intro w
  unfold space
  split <;> exact ⟨rfl, rfl⟩

theorem newline_writesOnly : WritesOnly newline := by
  intro w
  unfold newline
  split <;> exact ⟨rfl, rfl⟩

theorem bullet_writesOnly (depth : Nat) (marker : String) : WritesOnly (·.bullet depth marker) :=
  fun w => write_writesOnly depth marker w

theorem closeBullet_writesOnly : WritesOnly closeBullet := by
  intro w
  unfold closeBullet
  split <;> exact ⟨rfl, rfl⟩

theorem bodyLine_writesOnly (width : Nat) (line : String) : WritesOnly (bodyLine width · line) := by
  intro w
  dsimp only
  unfold bodyLine
  split <;> exact ⟨rfl, rfl⟩

theorem blockLines_writesOnly (depth : Nat) (lines : List String) :
    WritesOnly (·.blockLines depth lines) := by
  intro w
  simp only [blockLines]
  generalize w.unit * (depth + 1) = width
  induction lines generalizing w with
  | nil => exact ⟨rfl, rfl⟩
  | cons line rest ih =>
    obtain ⟨same, kept⟩ := bodyLine_writesOnly width line w
    obtain ⟨same', kept'⟩ := ih (bodyLine width w line)
    exact ⟨same'.trans same, kept'.trans kept⟩

end LineWriter

namespace Emit

open LineWriter

section

variable {α β : Type} {u : Nat}

/-- `m` keeps the indentation unit, and records only frames near their block base. -/
def KeepsPlaced (m : Emit α) : Prop := ∀ u, Triple (Placed u) m fun _ => Placed u

theorem Triple.written {f : LineWriter → LineWriter} (only : WritesOnly f) :
    Triple (Placed u) (Emit.out f) fun _ => Placed u :=
  Triple.out fun _ => only.placed

theorem Triple.afterWritten {f : LineWriter → LineWriter} {m : Emit β} {R : β → LineWriter → Prop}
    (only : WritesOnly f) (rest : Triple (Placed u) m R) :
    Triple (Placed u) (Emit.out f >>= fun _ => m) R :=
  Triple.afterOut (fun _ => only.placed) rest

theorem Triple.separatedPlaced {m : Emit β} {R : β → LineWriter → Prop} (i depth : Nat)
    (item : Triple (Placed u) m R) :
    Triple (Placed u)
      (if i > 0 then do Emit.out (·.write depth ","); Emit.out (·.space); m else m) R :=
  Hoare.ite (fun _ => Triple.afterWritten (write_writesOnly depth ",")
    (Triple.afterWritten space_writesOnly item)) fun _ => item

theorem Triple.colonPlaced {m : Emit β} {R : β → LineWriter → Prop} (depth : Nat)
    (value : Triple (Placed u) m R) :
    Triple (Placed u) (do Emit.out (·.write depth ":"); Emit.out (·.space); m) R :=
  Triple.afterWritten (write_writesOnly depth ":") (Triple.afterWritten space_writesOnly value)

end

theorem comments_placed (id depth : Nat) (lines : List String) :
    KeepsPlaced (comments id depth lines) := by
  intro u
  unfold comments
  refine Hoare.bind (Triple.forIn lines PUnit.unit fun line _ _ => ?_) fun _ => Triple.stay ()
  refine Hoare.bind (Triple.liftExcept _) fun text => Hoare.assume fun _ => ?_
  exact Triple.afterWritten newline_writesOnly
    (Triple.afterWritten (writeComment_writesOnly depth text)
      (Triple.afterWritten newline_writesOnly (Triple.stay _)))

section

variable {t : Tree} {c : Comments} {claims : BulletClaims}

theorem lineEnd_placed (id : Nat) : KeepsPlaced (lineEnd c id) := by
  intro u
  unfold lineEnd
  split
  · exact Triple.stay false
  · refine Hoare.bind (Triple.liftExcept _) fun text => Hoare.assume fun _ => ?_
    exact Triple.afterWritten space_writesOnly
      (Triple.afterWritten (writeComment_writesOnly 0 text) (Triple.stay true))

theorem inlineEnd_placed (id : Nat) (frame : Frame) : KeepsPlaced (inlineEnd c id frame) := by
  intro u
  unfold inlineEnd
  refine Hoare.bind (lineEnd_placed id u) fun _ => ?_
  have trailing := comments_placed id frame.depth (c.trailing id) u
  exact Hoare.ite (fun _ => Triple.afterWritten newline_writesOnly trailing) fun _ => trailing

theorem scalar_placed (id : Nat) (s : Scalar) (frame : Frame) :
    KeepsPlaced (scalar c id s frame) := by
  intro u
  unfold scalar
  refine Hoare.bind Triple.get fun writer => ?_
  refine Triple.mono (P := Placed u) ?_ (fun _ holds => holds.1) (fun _ _ holds => holds)
  dsimp only
  split
  · exact Triple.afterWritten (write_writesOnly _ _) (inlineEnd_placed id frame u)
  · exact Triple.afterWritten (write_writesOnly _ _) (Hoare.bind (lineEnd_placed id u) fun _ =>
      Triple.afterWritten (blockLines_writesOnly _ _) (comments_placed id frame.depth _ u))

theorem properties_placed (k : NodeKind) (frame : Frame) : KeepsPlaced (properties k frame) := by
  intro u
  unfold properties
  -- the anchor, then the tag, each when the node has one
  cases k.anchor <;> cases k.tag <;> dsimp only
  · exact Triple.stay ()
  · exact Triple.afterWritten (write_writesOnly _ _) (Triple.written space_writesOnly)
  · exact Triple.afterWritten (write_writesOnly _ _)
      (Triple.afterWritten space_writesOnly (Triple.stay ()))
  · exact Triple.afterWritten (write_writesOnly _ _) (Triple.afterWritten space_writesOnly
      (Triple.afterWritten (write_writesOnly _ _) (Triple.written space_writesOnly)))

theorem blockEnd_placed (id depth : Nat) : KeepsPlaced (blockEnd c id depth) := by
  intro u
  unfold blockEnd
  have trailing := comments_placed id depth (c.trailing id) u
  split
  · exact Hoare.bind (comments_placed id depth _ u) fun _ => trailing
  · exact trailing

end

section

variable (t : Tree) (c : Comments) (claims : BulletClaims)

/-- Every node written with fuel `G` in a frame near its block base keeps the writer placed. -/
def NodesPlaced (G : Nat) : Prop :=
  ∀ k (frame : Frame), frame.placement.NearBase → KeepsPlaced (node t c claims G k frame)

/-- Every node's content written with fuel `G` in a frame near its block base keeps the writer
placed. -/
def ContentsPlaced (G : Nat) : Prop :=
  ∀ k (frame : Frame), frame.placement.NearBase → KeepsPlaced (content t c claims G k frame)

end

section

variable {t : Tree} {c : Comments} {claims : BulletClaims}

/-! A collection's own frame may stand anywhere: the frames it builds for what stands in it
depend only on its depth. -/

theorem flowSequence_placed (F id : Nat) (kids : List Nat) (frame : Frame)
    (nodes : ∀ G < F, NodesPlaced t c claims G) :
    KeepsPlaced (flowSequence t c claims F id kids frame) := by
  intro u
  cases F with
  | zero =>
    rw [flowSequence]
    exact Triple.stay ()
  | succ G =>
    rw [flowSequence]
    refine Triple.afterWritten (write_writesOnly _ _) ?_
    refine Hoare.bind (Triple.forIn _ _ ?step) fun _ =>
      Triple.afterWritten (write_writesOnly _ _) (inlineEnd_placed id frame u)
    case step =>
      rintro ⟨child, i⟩ _ _
      exact Triple.separatedPlaced i (frame.depth + 1) (Hoare.bind
        (nodes G (Nat.lt_succ_self G) child _ (Frame.flow_nearBase frame) u) fun _ => Triple.stay _)

theorem flowMapping_placed (F id : Nat) (kids : List Nat) (frame : Frame)
    (nodes : ∀ G < F, NodesPlaced t c claims G) :
    KeepsPlaced (flowMapping t c claims F id kids frame) := by
  intro u
  cases F with
  | zero =>
    rw [flowMapping]
    exact Triple.stay ()
  | succ G =>
    rw [flowMapping]
    refine Triple.afterWritten (write_writesOnly _ _) ?_
    refine Hoare.bind (Triple.forIn _ _ ?step) fun _ =>
      Triple.afterWritten (write_writesOnly _ _) (inlineEnd_placed id frame u)
    case step =>
      rintro ⟨⟨key, value⟩, i⟩ _ _
      have entry := fun k => nodes G (Nat.lt_succ_self G) k _ (Frame.flow_nearBase frame) u
      refine Triple.separatedPlaced i (frame.depth + 1) (Hoare.bind (entry key) fun _ => ?_)
      -- the value, after its `:`, unless it is a bare null
      have written := Triple.colonPlaced (frame.depth + 1)
        (Hoare.bind (entry value) fun _ => Triple.stay (ForInStep.yield PUnit.unit))
      exact Triple.afterLookup t value (Hoare.ite (fun _ => Triple.afterLookup t key (Hoare.ite
        (fun _ => Triple.afterWritten space_writesOnly written) fun _ => written))
        fun _ => Triple.stay _)

theorem blockSequence_placed (F id : Nat) (kids : List Nat) (frame : Frame)
    (nodes : ∀ G < F, NodesPlaced t c claims G) :
    KeepsPlaced (blockSequence t c claims F id kids frame) := by
  intro u
  cases F with
  | zero =>
    rw [blockSequence]
    exact Triple.stay ()
  | succ G =>
    rw [blockSequence]
    refine Triple.afterWritten newline_writesOnly ?_
    refine Hoare.bind (Triple.forIn _ _ ?step) fun _ => blockEnd_placed id frame.depth u
    case step =>
      intro item _ _
      refine Hoare.bind (Triple.forIn _ _ fun h _ _ =>
        Hoare.bind (comments_placed h frame.depth _ u) fun _ => Triple.stay _) fun _ => ?_
      refine Triple.afterWritten (bullet_writesOnly _ _) (Hoare.bind
        (nodes G (Nat.lt_succ_self G) item _ (Frame.item_nearBase frame) u) fun _ => ?_)
      exact Triple.afterWritten closeBullet_writesOnly (Triple.afterWritten newline_writesOnly
        (Hoare.bind (Triple.stay ()) fun _ => Triple.stay _))

theorem explicitEntry_placed (F key value : Nat) (frame : Frame)
    (base : frame.blockBase = frame.depth) (contents : ∀ G < F, ContentsPlaced t c claims G) :
    KeepsPlaced (explicitEntry t c claims F key value frame) := by
  intro u
  cases F with
  | zero =>
    rw [explicitEntry]
    exact Triple.stay ()
  | succ G =>
    rw [explicitEntry]
    refine Hoare.bind (Triple.forIn _ _ ?step) fun _ => Triple.stay ()
    case step =>
      rintro ⟨indicator, n⟩ _ _
      have part := Triple.afterWritten (bullet_writesOnly frame.depth indicator) (Hoare.bind
        (contents G (Nat.lt_succ_self G) n _ (Frame.deeper_nearBase base) u) fun _ =>
          Triple.afterWritten closeBullet_writesOnly (Triple.stay (ForInStep.yield PUnit.unit)))
      refine Triple.afterWritten newline_writesOnly ?_
      exact Hoare.ite (fun _ => Hoare.bind (comments_placed n frame.depth _ u) fun _ => part)
        fun _ => part

theorem mappingValue_placed (F value : Nat) (frame : Frame) (base : frame.blockBase = frame.depth)
    (nodes : ∀ G < F, NodesPlaced t c claims G) :
    KeepsPlaced (mappingValue t c claims F value frame) := by
  intro u
  cases F with
  | zero =>
    rw [mappingValue]
    exact Triple.stay ()
  | succ G =>
    rw [mappingValue]
    have below := nodes G (Nat.lt_succ_self G) value
    have deeper := below _ (Frame.deeper_nearBase base) u
    exact Triple.afterLookup t value (Hoare.ite (fun _ => below frame (Frame.nearBase_of_base base) u)
      fun _ => Hoare.ite (fun _ => Triple.afterWritten newline_writesOnly deeper) fun _ => deeper)

theorem blockMapping_placed (F id : Nat) (kids : List Nat) (frame : Frame)
    (nodes : ∀ G < F, NodesPlaced t c claims G) (contents : ∀ G < F, ContentsPlaced t c claims G) :
    KeepsPlaced (blockMapping t c claims F id kids frame) := by
  intro u
  cases F with
  | zero =>
    rw [blockMapping]
    exact Triple.stay ()
  | succ G =>
    rw [blockMapping]
    refine Triple.afterWritten newline_writesOnly ?_
    refine Hoare.bind (Triple.forIn _ _ ?step) fun _ => blockEnd_placed id frame.depth u
    case step =>
      rintro ⟨key, value⟩ _ _
      have ending := Triple.afterWritten (u := u) newline_writesOnly
        (Triple.stay (ForInStep.yield PUnit.unit))
      refine Triple.afterLookup t key (Hoare.ite (fun _ => ?_) fun _ => ?_)
      · exact Hoare.bind (explicitEntry_placed G key value _ rfl
          (fun G' lower => contents G' (by omega)) u) fun _ => ending
      · -- the key, its `:`, and the value after it, all in the entry's frame
        refine Hoare.bind (nodes G (Nat.lt_succ_self G) key _ (Frame.entry_nearBase frame) u)
          fun _ => Triple.afterLookup t key ?_
        have value := Triple.colonPlaced frame.depth (Hoare.bind (mappingValue_placed G value
          { frame with blockBase := frame.depth } rfl
          (fun G' lower => nodes G' (by omega)) u) fun _ => ending)
        exact Hoare.ite (fun _ => Triple.afterWritten space_writesOnly value) fun _ => value

theorem content_succ_placed (F id : Nat) (frame : Frame) (near : frame.placement.NearBase)
    (nodes : ∀ G < F, NodesPlaced t c claims G) (contents : ∀ G < F, ContentsPlaced t c claims G) :
    KeepsPlaced (content t c claims (F + 1) id frame) := by
  intro u
  rw [content]
  refine Triple.afterLookup t id ?_
  cases t.kind? id with
  | none => exact Triple.stay ()
  | some k =>
    refine Triple.afterOut (fun _ => place_placed near)
      (Hoare.bind (properties_placed k frame u) fun _ => ?_)
    cases k with
    | scalar s => exact scalar_placed id s frame u
    | «alias» name =>
      exact Triple.afterWritten (write_writesOnly _ _) (inlineEnd_placed id frame u)
    | mapping col =>
      exact Hoare.ite (fun _ => flowMapping_placed F id col.children frame nodes u)
        fun _ => blockMapping_placed F id col.children frame nodes contents u
    | sequence col =>
      exact Hoare.ite (fun _ => flowSequence_placed F id col.children frame nodes u)
        fun _ => blockSequence_placed F id col.children frame nodes u
    | document d => exact Hoare.throw trivial
    | stream docs => exact Hoare.throw trivial

theorem node_placed (F : Nat) (contents : ∀ G < F, ContentsPlaced t c claims G) :
    NodesPlaced t c claims F := by
  intro id frame near u
  cases F with
  | zero =>
    rw [node]
    exact Triple.stay ()
  | succ G =>
    rw [node]
    have rest := contents G (Nat.lt_succ_self G) id frame near u
    exact Hoare.ite (fun _ => Hoare.bind (comments_placed id frame.depth _ u) fun _ => rest)
      fun _ => rest

/-- Whatever the fuel, the content of every node written in a frame near its base keeps the
writer placed. -/
theorem content_placed (F : Nat) : ContentsPlaced t c claims F := by
  -- the induction is on the fuel: a node's content writes the nodes below it with less
  induction F using Nat.strong_induction_on with
  | _ F ih =>
  intro id frame near
  cases F with
  | zero =>
    intro u
    rw [content]
    exact Triple.stay ()
  | succ F =>
    have contents : ∀ G < F, ContentsPlaced t c claims G := fun G lower => ih G (by omega)
    exact content_succ_placed F id frame near
      (fun G lower => node_placed G fun G' lower' => contents G' (by omega)) contents

theorem documentStart_placed (d : Document) (followsOpen : Bool) :
    KeepsPlaced (documentStart c d followsOpen) := by
  intro u
  rw [documentStart]
  refine Hoare.bind (Triple.forIn _ _ fun _ _ _ => ?_) fun _ => ?_
  · exact Triple.afterWritten newline_writesOnly (Triple.afterWritten (write_writesOnly _ _)
      (Hoare.bind (Triple.written newline_writesOnly) fun _ => Triple.stay _))
  · exact Hoare.ite (fun _ => Triple.afterWritten newline_writesOnly
      (Triple.afterWritten (write_writesOnly _ _) (Hoare.ite
        (fun _ => Triple.written space_writesOnly) fun _ => Triple.written newline_writesOnly)))
      fun _ => Triple.stay ()

theorem document_placed (fuel id : Nat) (d : Document) (followsOpen nextHasDirectives : Bool) :
    KeepsPlaced (document t c claims fuel id d followsOpen nextHasDirectives) := by
  intro u
  rw [document]
  refine Hoare.bind (comments_placed id 0 _ u) fun _ => ?_
  refine Hoare.bind (documentStart_placed d followsOpen u) fun _ => ?_
  refine Hoare.bind (node_placed fuel (fun G _ => content_placed G) d.root _
    (Frame.top_nearBase _) u) fun _ => ?_
  refine Triple.afterWritten newline_writesOnly ?_
  dsimp only
  have closing := Hoare.bind (comments_placed id 0 (c.trailing id) u)
    fun _ => Triple.stay (!d.implicitEnd || nextHasDirectives)
  exact Hoare.ite (fun _ => Triple.afterWritten (write_writesOnly _ _)
    (Triple.afterWritten newline_writesOnly closing)) fun _ => closing

theorem stream_placed (fuel id : Nat) (docs : List Nat) :
    KeepsPlaced (stream t c claims fuel id docs) := by
  intro u
  rw [stream]
  refine Hoare.bind (comments_placed id 0 _ u) fun _ => ?_
  refine Hoare.bind (Triple.forIn _ _ ?step) fun _ => comments_placed id 0 _ u
  case step =>
    rintro ⟨docId, i⟩ _ followsOpen
    dsimp only
    refine Triple.afterLookup t docId ?_
    split
    · exact Hoare.bind (nextHasDirectives_stays t _) fun _ =>
        Hoare.bind (document_placed fuel docId _ _ _ u) fun _ => Triple.stay _
    · exact Hoare.throw trivial

theorem root_placed (fuel id : Nat) : KeepsPlaced (root t c claims fuel id) := by
  intro u
  unfold root
  refine Triple.afterLookup t id ?_
  split
  · exact stream_placed fuel id _ u
  · exact Hoare.bind (document_placed fuel id _ false false u) fun _ => Triple.stay ()
  · exact Hoare.bind (node_placed fuel (fun G _ => content_placed G) id _
      (Frame.top_nearBase _) u) fun _ => Triple.written newline_writesOnly

end

end Emit

/-- A tree written from a fresh writer keeps the indentation width as its unit, and records
only frames near their block base. -/
theorem AnnotatedTree.write_placed {a : AnnotatedTree} {indent : IndentWidth} {w : LineWriter}
    (written : a.write indent = .ok w) : w.Placed indent.width := by
  unfold AnnotatedTree.write at written
  split at written
  · cases written
    exact LineWriter.placed_start _
  · rename_i r _
    dsimp only at written
    split at written
    · rename_i ran
      cases written
      exact (Emit.root_placed _ r _).ok_of (LineWriter.placed_start _) ran
    · cases written

/-- At a frame near its block base, a block scalar's indentation digit is one or two units, and
the body's indentation is the base's indentation plus the digit. -/
theorem Placement.indentDigit_of_nearBase {p : Placement}
    (near : p.blockBase ≤ p.depth ∧ p.depth ≤ p.blockBase + 1) (u : Nat) :
    (u * (p.depth + 1 - p.blockBase) = u ∨ u * (p.depth + 1 - p.blockBase) = 2 * u) ∧
      u * (p.depth + 1) = u * p.blockBase + u * (p.depth + 1 - p.blockBase) := by
  refine ⟨?_, ?_⟩
  · rcases (by omega : p.depth + 1 - p.blockBase = 1 ∨ p.depth + 1 - p.blockBase = 2) with one | two
    · left
      rw [one, Nat.mul_one]
    · right
      rw [two, Nat.mul_comm]
  · rw [← Nat.mul_add, Nat.add_sub_cancel' (by omega : p.blockBase ≤ p.depth + 1)]

/-- Block-scalar indentation digits stay single digits that match the body. A tree written
with indentation width `u` keeps `u` as the writer's unit, and every frame it writes a node in
outside flow collections stands at its block base or one level below it; so the indentation
digit a block scalar there is written with, `u * (depth + 1 - blockBase)`, is `u` or `2 * u`, a
number from 2 to 8 printed as the one digit it is, and the body lines, indented by
`u * (depth + 1)`, stand exactly that digit past the base's indentation `u * blockBase`. -/
theorem block_indentation_digit_fits_body (a : AnnotatedTree) (indent : IndentWidth)
    {w : LineWriter} (written : a.write indent = .ok w) :
    w.unit = indent.width ∧
    ∀ p ∈ w.placements, p.flow = false →
      (p.blockBase ≤ p.depth ∧ p.depth ≤ p.blockBase + 1) ∧
      (w.unit * (p.depth + 1 - p.blockBase) = w.unit ∨
        w.unit * (p.depth + 1 - p.blockBase) = 2 * w.unit) ∧
      (2 ≤ w.unit * (p.depth + 1 - p.blockBase) ∧ w.unit * (p.depth + 1 - p.blockBase) ≤ 8) ∧
      (toString (w.unit * (p.depth + 1 - p.blockBase))).toList =
        [Nat.digitChar (w.unit * (p.depth + 1 - p.blockBase))] ∧
      w.unit * (p.depth + 1) = w.unit * p.blockBase + w.unit * (p.depth + 1 - p.blockBase) := by
  obtain ⟨unit, placed⟩ := AnnotatedTree.write_placed written
  refine ⟨unit, fun p member ground => ?_⟩
  have near := placed p member ground
  obtain ⟨units, body⟩ := Placement.indentDigit_of_nearBase near w.unit
  have width := indent.valid
  have digit : 2 ≤ w.unit * (p.depth + 1 - p.blockBase) ∧
      w.unit * (p.depth + 1 - p.blockBase) ≤ 8 := by
    rcases units with one | two <;> omega
  exact ⟨near, units, digit, toString_digit (by omega) (by omega), body⟩

/-- A block sequence whose first item is a mapping with a literal value, and whose second is a
literal itself, both values starting with a space so that their headers carry the digit. -/
def nestedBlockSample : AnnotatedTree :=
  AnnotatedTree.bare ⟨#[{ kind := .scalar { value := "k" } },
    { kind := .scalar { value := " a\n", style := .literal } },
    { kind := .mapping { children := [0, 1] } },
    { kind := .scalar { value := " b\n", style := .literal } },
    { kind := .sequence { children := [2, 3] } }], by decide⟩

/-- With width 4 the value stands in its entry's frame, at the base, and gets one unit, `|4`;
the second item stands one level below the sequence and gets two, `|8`. -/
theorem nestedBlockSample_digits :
    ∃ w, nestedBlockSample.write ⟨4, by decide⟩ = .ok w ∧
      w.placements = [⟨0, false, 0⟩, ⟨1, false, 0⟩, ⟨1, false, 1⟩, ⟨1, false, 1⟩, ⟨1, false, 0⟩] ∧
      w.finish = "-   k: |4\n         a\n-   |8\n         b\n" ∧
      w.unit = 4 ∧
      ∀ p ∈ w.placements, p.flow = false →
        (p.blockBase ≤ p.depth ∧ p.depth ≤ p.blockBase + 1) ∧
        (w.unit * (p.depth + 1 - p.blockBase) = w.unit ∨
          w.unit * (p.depth + 1 - p.blockBase) = 2 * w.unit) ∧
        (2 ≤ w.unit * (p.depth + 1 - p.blockBase) ∧ w.unit * (p.depth + 1 - p.blockBase) ≤ 8) ∧
        (toString (w.unit * (p.depth + 1 - p.blockBase))).toList =
          [Nat.digitChar (w.unit * (p.depth + 1 - p.blockBase))] ∧
        w.unit * (p.depth + 1) = w.unit * p.blockBase + w.unit * (p.depth + 1 - p.blockBase) := by
  have ran : (nestedBlockSample.write ⟨4, by decide⟩).map (fun w => (w.placements, w.finish)) =
      .ok ([⟨0, false, 0⟩, ⟨1, false, 0⟩, ⟨1, false, 1⟩, ⟨1, false, 1⟩, ⟨1, false, 0⟩],
        "-   k: |4\n         a\n-   |8\n         b\n") := by
    decide +kernel
  cases written : nestedBlockSample.write ⟨4, by decide⟩ with
  | error e =>
    rw [written] at ran
    cases ran
  | ok w =>
    rw [written] at ran
    obtain ⟨placed, text⟩ := Prod.mk.inj (Except.ok.inj ran)
    exact ⟨w, rfl, placed, text,
      block_indentation_digit_fits_body nestedBlockSample ⟨4, by decide⟩ written⟩

end AnnotatedYaml
