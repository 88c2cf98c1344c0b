import AnnotatedYaml.Proofs.Layout.BulletLines
import AnnotatedYaml.Proofs.Layout.WrittenOnce

/-! Writing a tree reads the comments of the nodes of its walk only. -/

namespace AnnotatedYaml

namespace Tree

/-- Node `i` and every node below it carry the same comments in `c` and `c'`. -/
def AgreeBelow (t : Tree) (c c' : Comments) (i : Nat) : Prop :=
  ∀ n ∈ t.preorder i, c.get n = c'.get n

variable {t : Tree} {c c' : Comments}

theorem AgreeBelow.here {i : Nat} (agree : t.AgreeBelow c c' i) (inside : i < t.size) :
    c.get i = c'.get i :=
  agree i (mem_preorder_self inside)

theorem AgreeBelow.child {i k : Nat} (agree : t.AgreeBelow c c' i) (child : k ∈ t.childrenOf i) :
    t.AgreeBelow c c' k :=
  fun n below => agree n (preorder_subset_of_child child n below)

theorem isSingleLine_congr {i : Nat} (here : c.get i = c'.get i) :
    t.isSingleLine c i = t.isSingleLine c' i := by
  simp only [isSingleLine, Comments.leading, Comments.trailing, here]

theorem needsExplicitKey_congr {i : Nat} (here : c.get i = c'.get i) :
    t.needsExplicitKey c i = t.needsExplicitKey c' i := by
  simp only [needsExplicitKey, Comments.trailing, Comments.lineEnd, here]

theorem isBareNull_congr {i : Nat} (here : c.get i = c'.get i) :
    t.isBareNull c i = t.isBareNull c' i := by
  simp only [isBareNull, here]

theorem preorder_subset_walk_of_item {item : Nat} (member : item ∈ t.walkBulletItems) :
    ∀ n ∈ t.preorder item, n ∈ t.walk := by
  unfold walkBulletItems at member
  cases root : t.root? with
  | none => simp [root] at member
  | some r =>
    rw [root, Option.map_some, Option.getD_some] at member
    obtain ⟨p, onWalk, child, -⟩ := exists_parent_of_mem_bulletItems member
    intro n below
    rw [walk_eq_preorder, root, Option.map_some, Option.getD_some]
    exact mem_preorder_trans (preorder_subset_of_child child n below) onWalk

end Tree

namespace BulletClaims

variable {t : Tree} {c c' : Comments}

theorem go_congr {fuel cur : Nat} (b : BulletClaims) (acc : List Nat) (inside : cur < t.size)
    (agree : t.AgreeBelow c c' cur) :
    claimSpine.go t c fuel cur b acc = claimSpine.go t c' fuel cur b acc := by
  induction fuel generalizing cur b acc with
  | zero => rfl
  | succ fuel ih =>
    simp only [claimSpine.go, Comments.leading, agree.here inside]
    split
    · rfl
    split
    · rfl
    split
    · rfl
    rename_i k found
    have kids : t.childrenOf cur = k.children := by simp [Tree.childrenOf, found]
    split
    · rfl
    rename_i first rest children
    have child : first ∈ t.childrenOf cur := by
      rw [kids, children]
      exact List.mem_cons_self
    have below := Tree.lt_of_mem_childrenOf child
    -- a mapping's first key, or the walk on from a sequence's first item
    split
    · rw [(agree.child child).here (by omega)]
      rfl
    · exact ih _ _ (by omega) (agree.child child)

theorem claimSpine_congr {item : Nat} (b : BulletClaims) (inside : item < t.size)
    (agree : t.AgreeBelow c c' item) : claimSpine t c item b = claimSpine t c' item b := by
  unfold claimSpine
  rw [go_congr b [] inside agree]

theorem collect_congr (agree : ∀ n ∈ t.walk, c.get n = c'.get n) : collect t c = collect t c' := by
  rw [collect_eq_foldl, collect_eq_foldl]
  apply List.foldl_ext
  intro b item member
  exact claimSpine_congr b (Tree.bulletItem_facts member).1
    fun n below => agree n (Tree.preorder_subset_walk_of_item member n below)

theorem mem_hoistedOf_set {b : BulletClaims} {item i h : Nat} {hoisted : List Nat}
    (member : h ∈ ({ b with hoisted := b.hoisted.set! item hoisted } : BulletClaims).hoistedOf i) :
    h ∈ b.hoistedOf i ∨ h ∈ hoisted ∧ i = item := by
  unfold hoistedOf at member ⊢
  simp only [Array.set!_eq_setIfInBounds, Array.getD_eq_getD_getElem?,
    Array.getElem?_setIfInBounds] at member ⊢
  split at member
  · rename_i same
    split at member
    · exact .inr ⟨member, same.symm⟩
    · simp at member
  · exact .inl member

theorem claimSpine_hoisted_below {b : BulletClaims} {item : Nat} (inside : item < t.size)
    (sized : b.claimed.size = t.size) (below : ∀ i, ∀ h ∈ b.hoistedOf i, h ∈ t.preorder i) :
    (claimSpine t c item b).claimed.size = t.size ∧
      ∀ i, ∀ h ∈ (claimSpine t c item b).hoistedOf i, h ∈ t.preorder i := by
  obtain ⟨fresh, grows, collected, spine⟩ := go_spec (c := c) (t.size + 1) item b [] inside sized
  unfold claimSpine
  generalize claimSpine.go t c (t.size + 1) item b [] = walked at grows collected
  obtain ⟨b', acc⟩ := walked
  dsimp only at grows collected ⊢
  refine ⟨by rw [check_claimed, grows.size_eq, sized], fun i h member => ?_⟩
  rcases mem_hoistedOf_set member with old | ⟨new, rfl⟩
  · rw [hoistedOf_check] at old
    unfold hoistedOf at old
    rw [grows.hoisted_eq] at old
    exact below i h old
  · -- the new list is the part of the walk from the item with leading comments
    rw [collected, List.nil_append] at new
    exact (spine h (List.mem_filter.mp new).1).1

theorem collect_hoisted_below (t : Tree) (c : Comments) :
    ∀ item, ∀ h ∈ (collect t c).hoistedOf item, h ∈ t.preorder item := by
  rw [collect_eq_foldl]
  -- Handling the items one after the other keeps the property and the size of the table.
  have fold : ∀ (items : List Nat) (b : BulletClaims), (∀ i ∈ items, i < t.size) →
      b.claimed.size = t.size → (∀ i, ∀ h ∈ b.hoistedOf i, h ∈ t.preorder i) →
      ∀ i, ∀ h ∈ (items.foldl (fun b item => claimSpine t c item b) b).hoistedOf i,
        h ∈ t.preorder i := by
    intro items
    induction items with
    | nil => exact fun b _ _ below => below
    | cons item rest ih =>
      intro b inside sized below
      obtain ⟨sized', below'⟩ := claimSpine_hoisted_below (c := c)
        (inside item List.mem_cons_self) sized below
      exact ih _ (fun i member => inside i (List.mem_cons_of_mem item member)) sized' below'
  refine fold _ _ (fun i member => (Tree.bulletItem_facts member).1) (by simp [start]) ?_
  intro i h member
  simp only [hoistedOf, start, Array.getD_eq_getD_getElem?, Array.getElem?_replicate] at member
  split at member <;> simp at member

end BulletClaims

theorem forIn_congr {m : Type → Type} [Monad m] {β σ : Type} (xs : List β) (s : σ)
    {f g : β → σ → m (ForInStep σ)} (same : ∀ x ∈ xs, ∀ s, f x s = g x s) :
    ForIn.forIn xs s f = ForIn.forIn xs s g := by
  induction xs generalizing s with
  | nil => rfl
  | cons x rest ih =>
    rw [List.forIn_cons, List.forIn_cons, same x List.mem_cons_self s]
    congr 1
    funext r
    cases r with
    | done b => rfl
    | yield b => exact ih b fun y member => same y (List.mem_cons_of_mem x member)

namespace Emit

section

variable {t : Tree} {c c' : Comments} {cl : BulletClaims}

theorem inlineEnd_congr {id : Nat} (frame : Frame) (here : c.get id = c'.get id) :
    inlineEnd c id frame = inlineEnd c' id frame := by
  simp only [inlineEnd, lineEnd, Comments.lineEnd, Comments.trailing, here]

theorem scalar_congr {id : Nat} (s : Scalar) (frame : Frame) (here : c.get id = c'.get id) :
    scalar c id s frame = scalar c' id s frame := by
  simp only [scalar, inlineEnd, lineEnd, Comments.lineEnd, Comments.trailing, here]

theorem blockEnd_congr {id : Nat} (depth : Nat) (here : c.get id = c'.get id) :
    blockEnd c id depth = blockEnd c' id depth := by
  simp only [blockEnd, Comments.lineEnd, Comments.trailing, here]

theorem node_congr (F id : Nat) (frame : Frame) (here : c.get id = c'.get id)
    (rest : ∀ G < F, content t c cl G id frame = content t c' cl G id frame) :
    node t c cl F id frame = node t c' cl F id frame := by
  cases F with
  | zero => rw [node, node]
  | succ G =>
    rw [node, node, rest G (Nat.lt_succ_self G)]
    simp only [Comments.leading, here]

theorem flowSequence_congr (F id : Nat) (kids : List Nat) (frame : Frame)
    (here : c.get id = c'.get id)
    (items : ∀ G < F, ∀ k ∈ kids, ∀ inner, node t c cl G k inner = node t c' cl G k inner) :
    flowSequence t c cl F id kids frame = flowSequence t c' cl F id kids frame := by
  cases F with
  | zero => rw [flowSequence, flowSequence]
  | succ G =>
    rw [flowSequence, flowSequence, inlineEnd_congr frame here]
    congr 1
    funext _
    congr 1
    apply forIn_congr
    rintro ⟨child, i⟩ member s
    dsimp only
    rw [items G (Nat.lt_succ_self G) child (List.fst_mem_of_mem_zipIdx member)]

theorem flowMapping_congr (F id : Nat) (kids : List Nat) (frame : Frame)
    (here : c.get id = c'.get id) (kidsHere : ∀ k ∈ kids, c.get k = c'.get k)
    (items : ∀ G < F, ∀ k ∈ kids, ∀ inner, node t c cl G k inner = node t c' cl G k inner) :
    flowMapping t c cl F id kids frame = flowMapping t c' cl F id kids frame := by
  cases F with
  | zero => rw [flowMapping, flowMapping]
  | succ G =>
    rw [flowMapping, flowMapping, inlineEnd_congr frame here]
    congr 1
    funext _
    congr 1
    apply forIn_congr
    rintro ⟨⟨key, value⟩, i⟩ member s
    obtain ⟨inKey, inValue⟩ := mem_of_mem_pairsOf (List.fst_mem_of_mem_zipIdx member)
    dsimp only
    rw [items G (Nat.lt_succ_self G) key inKey, items G (Nat.lt_succ_self G) value inValue,
      Tree.isBareNull_congr (kidsHere value inValue)]

theorem mappingValue_congr (F value : Nat) (frame : Frame) (here : c.get value = c'.get value)
    (item : ∀ G < F, ∀ inner, node t c cl G value inner = node t c' cl G value inner) :
    mappingValue t c cl F value frame = mappingValue t c' cl F value frame := by
  cases F with
  | zero => rw [mappingValue, mappingValue]
  | succ G =>
    rw [mappingValue, mappingValue, Tree.isSingleLine_congr here]
    simp only [Comments.leading, here, item G (Nat.lt_succ_self G)]
    rfl

theorem explicitEntry_congr (F key value : Nat) (frame : Frame)
    (parts : ∀ n ∈ [key, value], c.get n = c'.get n ∧
      ∀ G < F, ∀ inner, content t c cl G n inner = content t c' cl G n inner) :
    explicitEntry t c cl F key value frame = explicitEntry t c' cl F key value frame := by
  cases F with
  | zero => rw [explicitEntry, explicitEntry]
  | succ G =>
    rw [explicitEntry, explicitEntry]
    congr 1
    apply forIn_congr
    rintro ⟨indicator, n⟩ member s
    have inParts : n ∈ [key, value] := by
      simp only [List.mem_cons, Prod.mk.injEq, List.not_mem_nil, or_false] at member
      rcases member with ⟨-, rfl⟩ | ⟨-, rfl⟩ <;> simp
    obtain ⟨here, contents⟩ := parts n inParts
    dsimp only
    simp only [Comments.leading, here, contents G (Nat.lt_succ_self G)]

theorem blockMapping_congr (F id : Nat) (kids : List Nat) (frame : Frame)
    (here : c.get id = c'.get id) (kidsHere : ∀ k ∈ kids, c.get k = c'.get k)
    (nodes : ∀ G < F, ∀ k ∈ kids, ∀ inner, node t c cl G k inner = node t c' cl G k inner)
    (contents : ∀ G < F, ∀ k ∈ kids, ∀ inner,
      content t c cl G k inner = content t c' cl G k inner) :
    blockMapping t c cl F id kids frame = blockMapping t c' cl F id kids frame := by
  cases F with
  | zero => rw [blockMapping, blockMapping]
  | succ G =>
    rw [blockMapping, blockMapping, blockEnd_congr _ here]
    congr 1
    funext _
    congr 1
    apply forIn_congr
    rintro ⟨key, value⟩ member s
    obtain ⟨inKey, inValue⟩ := mem_of_mem_pairsOf member
    have entry : ∀ inner, explicitEntry t c cl G key value inner =
        explicitEntry t c' cl G key value inner := by
      intro inner
      refine explicitEntry_congr G key value inner fun n inParts => ?_
      have inKids : n ∈ kids := by
        simp only [List.mem_cons, List.not_mem_nil, or_false] at inParts
        rcases inParts with rfl | rfl
        · exact inKey
        · exact inValue
      exact ⟨kidsHere n inKids, fun G' lower => contents G' (by omega) n inKids⟩
    dsimp only
    rw [Tree.needsExplicitKey_congr (kidsHere key inKey), entry,
      nodes G (Nat.lt_succ_self G) key inKey,
      mappingValue_congr G value _ (kidsHere value inValue)
        fun G' lower => nodes G' (by omega) value inValue]

theorem blockSequence_congr (F id : Nat) (kids : List Nat) (frame : Frame)
    (here : c.get id = c'.get id)
    (hoisted : ∀ k ∈ kids, ∀ h ∈ cl.hoistedOf k, c.get h = c'.get h)
    (nodes : ∀ G < F, ∀ k ∈ kids, ∀ inner, node t c cl G k inner = node t c' cl G k inner) :
    blockSequence t c cl F id kids frame = blockSequence t c' cl F id kids frame := by
  cases F with
  | zero => rw [blockSequence, blockSequence]
  | succ G =>
    rw [blockSequence, blockSequence, blockEnd_congr _ here]
    refine bind_congr fun _ => congrArg (· >>= _) ?_
    apply forIn_congr
    intro item member s
    rw [nodes G (Nat.lt_succ_self G) item member]
    refine congrArg (· >>= _) ?_
    apply forIn_congr
    intro h inHoisted s'
    simp only [Comments.leading, hoisted item member h inHoisted]

/-- Writing the content of a node reads the comments of the nodes below it only, when every
node hoisted for an item lies below the item. The induction is on the fuel, which the writer
spends going down from a node to the nodes below it. -/
theorem content_congr (hoisted : ∀ item, ∀ h ∈ cl.hoistedOf item, h ∈ t.preorder item)
    (F : Nat) : ∀ id frame, id < t.size → t.AgreeBelow c c' id →
      content t c cl F id frame = content t c' cl F id frame := by
  induction F using Nat.strong_induction_on with
  | _ F ih =>
  intro id frame inside agree
  cases F with
  | zero => rw [content, content]
  | succ F =>
  obtain ⟨k, found⟩ := Tree.exists_kind? inside
  have kids : t.childrenOf id = k.children := by simp [Tree.childrenOf, found]
  have below : ∀ j ∈ k.children, j < t.size ∧ t.AgreeBelow c c' j := fun j member =>
    ⟨Nat.lt_trans (Tree.lt_of_mem_childrenOf (kids ▸ member)) inside,
      agree.child (kids ▸ member)⟩
  have kidsHere : ∀ j ∈ k.children, c.get j = c'.get j := fun j member =>
    (below j member).2.here (below j member).1
  have contents : ∀ G < F + 1, ∀ j ∈ k.children, ∀ inner,
      content t c cl G j inner = content t c' cl G j inner :=
    fun G lower j member inner => ih G lower j inner (below j member).1 (below j member).2
  have nodes : ∀ G < F, ∀ j ∈ k.children, ∀ inner,
      node t c cl G j inner = node t c' cl G j inner :=
    fun G lower j member inner => node_congr G j inner (kidsHere j member)
      fun G' lower' => contents G' (by omega) j member inner
  have here := agree.here inside
  rw [content, content, found]
  dsimp only
  -- the lookup, the placement and the properties are written alike; the rest reads the
  -- comments
  congr 1
  funext _
  congr 1
  funext _
  congr 1
  funext _
  cases k with
  | scalar s => exact scalar_congr s frame here
  | «alias» name => rw [inlineEnd_congr frame here]
  | mapping col =>
    dsimp only
    rw [flowMapping_congr F id col.children frame here kidsHere nodes,
      blockMapping_congr F id col.children frame here kidsHere nodes
        fun G lower => contents G (by omega)]
  | sequence col =>
    -- the comments hoisted for an item lie below it
    have hoistedHere : ∀ j ∈ col.children, ∀ h ∈ cl.hoistedOf j, c.get h = c'.get h :=
      fun j member h inHoisted => (below j member).2 h (hoisted j h inHoisted)
    dsimp only
    rw [flowSequence_congr F id col.children frame here nodes,
      blockSequence_congr F id col.children frame here hoistedHere nodes]
  | document d => rfl
  | stream docs => rfl

theorem node_congr_of_agree (hoisted : ∀ item, ∀ h ∈ cl.hoistedOf item, h ∈ t.preorder item)
    (F : Nat) {id : Nat} (frame : Frame) (inside : id < t.size) (agree : t.AgreeBelow c c' id) :
    node t c cl F id frame = node t c' cl F id frame :=
  node_congr F id frame (agree.here inside) fun G _ => content_congr hoisted G id frame inside agree

theorem documentStart_congr (d : Document) (followsOpen : Bool)
    (here : c.get d.root = c'.get d.root) :
    documentStart c d followsOpen = documentStart c' d followsOpen := by
  simp only [documentStart, Comments.leading, here]
  rfl

theorem document_congr (hoisted : ∀ item, ∀ h ∈ cl.hoistedOf item, h ∈ t.preorder item)
    (fuel : Nat) {id : Nat} {d : Document} (found : t.kind? id = some (.document d))
    (agree : t.AgreeBelow c c' id) (followsOpen nextHasDirectives : Bool) :
    document t c cl fuel id d followsOpen nextHasDirectives =
      document t c' cl fuel id d followsOpen nextHasDirectives := by
  have inside := Tree.lt_size_of_kind? found
  have child : d.root ∈ t.childrenOf id := by
    simp [Tree.childrenOf, found, NodeKind.children]
  have rootInside := Nat.lt_trans (Tree.lt_of_mem_childrenOf child) inside
  simp only [document, Comments.leading, Comments.trailing, agree.here inside,
    documentStart_congr d followsOpen ((agree.child child).here rootInside),
    node_congr_of_agree hoisted fuel _ rootInside (agree.child child)]

theorem stream_congr (hoisted : ∀ item, ∀ h ∈ cl.hoistedOf item, h ∈ t.preorder item)
    (fuel : Nat) {id : Nat} {docs : List Nat} (found : t.kind? id = some (.stream docs))
    (agree : t.AgreeBelow c c' id) :
    stream t c cl fuel id docs = stream t c' cl fuel id docs := by
  have inside := Tree.lt_size_of_kind? found
  rw [stream, stream]
  simp only [Comments.leading, Comments.trailing, agree.here inside]
  refine bind_congr fun _ => congrArg (· >>= _) ?_
  apply forIn_congr
  rintro ⟨docId, i⟩ member followsOpen
  have child : docId ∈ t.childrenOf id := by
    simpa [Tree.childrenOf, found, NodeKind.children] using List.fst_mem_of_mem_zipIdx member
  refine bind_congr fun _ => ?_
  split
  · rename_i d isDocument
    simp only [document_congr hoisted fuel isDocument (agree.child child)]
  · rfl

theorem root_congr (hoisted : ∀ item, ∀ h ∈ cl.hoistedOf item, h ∈ t.preorder item)
    (fuel : Nat) {r : Nat} (inside : r < t.size) (agree : t.AgreeBelow c c' r) :
    root t c cl fuel r = root t c' cl fuel r := by
  obtain ⟨k, found⟩ := Tree.exists_kind? inside
  rw [root, root, found]
  cases k
  case stream docs => dsimp only; rw [stream_congr hoisted fuel found agree]
  case document d => dsimp only; rw [document_congr hoisted fuel found agree]
  all_goals
    dsimp only
    rw [node_congr_of_agree hoisted fuel _ inside agree]

end

end Emit

/-- Writing a tree reads the comments of the nodes of its walk only. -/
theorem AnnotatedTree.write_congr (t : Tree) {c c' : Comments} (indent : IndentWidth)
    (agree : ∀ n ∈ t.walk, c.get n = c'.get n) :
    AnnotatedTree.write ⟨t, c⟩ indent = AnnotatedTree.write ⟨t, c'⟩ indent := by
  unfold AnnotatedTree.write
  dsimp only
  rw [BulletClaims.collect_congr agree]
  cases root : t.root? with
  | none => rfl
  | some r =>
    have inside : r < t.size := by have := Tree.root_eq root; omega
    have below : t.AgreeBelow c c' r := fun n onWalk => agree n (by simpa [Tree.walk_eq_preorder, root] using onWalk)
    dsimp only
    rw [Emit.root_congr (BulletClaims.collect_hoisted_below t c') _ inside below]

theorem Comments.get_forTree (t : Tree) (n : Nat) : (Comments.forTree t).get n = {} := by
  simp only [Comments.forTree, Comments.get, Array.getD_eq_getD_getElem?, Array.getElem?_replicate]
  split <;> rfl

/-- Writing a tree reads the comments of the nodes its walk reaches, and no others: two comment
tables that agree on those nodes give the same text or the same error, and a table with no
comment on them gives what the tree without comments gives. -/
theorem render_reads_reachable_comments (t : Tree) (indent : IndentWidth) :
    (∀ c c' : Comments, (∀ n ∈ t.walk, c.get n = c'.get n) →
      AnnotatedTree.render ⟨t, c⟩ indent = AnnotatedTree.render ⟨t, c'⟩ indent) ∧
    ∀ c : Comments, (∀ n ∈ t.walk, c.get n = {}) →
      AnnotatedTree.render ⟨t, c⟩ indent = (AnnotatedTree.bare t).render indent := by
  have same : ∀ c c' : Comments, (∀ n ∈ t.walk, c.get n = c'.get n) →
      AnnotatedTree.render ⟨t, c⟩ indent = AnnotatedTree.render ⟨t, c'⟩ indent := by
    intro c c' agree
    unfold AnnotatedTree.render
    rw [AnnotatedTree.write_congr t indent agree]
  refine ⟨same, fun c empty => same c _ fun n onWalk => ?_⟩
  rw [empty n onWalk, Comments.get_forTree]

/-- `- a` with a node that no path reaches: a scalar `x` added before the sequence. -/
def strandedNodes : List Node :=
  [{ kind := .scalar { value := "x" } }, { kind := .scalar { value := "a" } },
    { kind := .sequence { children := [1] } }]

/-- Comments on the stranded node and past the end of the arena. -/
def strandedSample : AnnotatedTree :=
  let comments : Comments :=
    { slots := #[{ leading := ["# lost"], lineEnd := some "# gone" }, {}, {}, {}, {},
        { trailing := ["# far"] }] }
  match Tree.empty.pushAll strandedNodes with
  | .ok t => ⟨t, comments⟩
  | .error _ => ⟨Tree.empty, comments⟩

theorem strandedSample_renders_bare :
    (∀ n ∈ strandedSample.tree.walk, strandedSample.comments.get n = {}) ∧
      strandedSample.render IndentWidth.standard =
        (AnnotatedTree.bare strandedSample.tree).render IndentWidth.standard ∧
      strandedSample.render IndentWidth.standard = .ok "- a\n" :=
  have empty : ∀ n ∈ strandedSample.tree.walk, strandedSample.comments.get n = {} := by
    have walk : strandedSample.tree.walk = [2, 1] := by
      rw [Tree.walk_eq_preorder]
      decide +kernel
    intro n onWalk
    rw [walk] at onWalk
    simp only [List.mem_cons, List.not_mem_nil, or_false] at onWalk
    rcases onWalk with rfl | rfl <;> rfl
  ⟨empty, (render_reads_reachable_comments strandedSample.tree IndentWidth.standard).2
    strandedSample.comments empty, by decide +kernel⟩

end AnnotatedYaml
