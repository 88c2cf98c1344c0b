import AnnotatedYaml.Proofs.Layout.Reachable
import AnnotatedYaml.Proofs.Layout.CommentLines
import AnnotatedYaml.Proofs.Comment.Analysis
import AnnotatedYaml.Proofs.Tree.BuilderSafety

/-! Every traversal of a tree settles within the fuel it is given, and none reads a node, a slot or
a byte out of range. -/

namespace AnnotatedYaml

namespace Tree

variable {t : Tree}

theorem lt_of_kind?_children {i j : Nat} {k : NodeKind} (found : t.kind? i = some k)
    (child : j ∈ k.children) : j < i :=
  lt_of_mem_childrenOf (show j ∈ t.childrenOf i by simpa [childrenOf, found] using child)

theorem lt_size_of_mem_walk {i : Nat} (member : i ∈ t.walk) : i < t.size := by
  rw [walk_eq_preorder] at member
  cases root : t.root? with
  | some r => exact lt_size_of_mem_preorder (by simpa [root] using member)
  | none => simp [root] at member

/-- The scalar search answers a scalar of the walk that holds the value asked for. -/
theorem findScalar?_spec {value : String} {i : Nat} (found : t.findScalar? value = some i) :
    i ∈ t.walk ∧ ∃ s, t.kind? i = some (.scalar s) ∧ s.value = value := by
  obtain ⟨before, after, whole, holds, -⟩ := findScalar?_eq_some_iff.mp found
  exact ⟨by simp [whole], holds⟩

end Tree

namespace Emit

section

variable {t : Tree} {c : Comments} {cl : BulletClaims}

/-! Each writing function with one more unit of fuel, given that what it calls does not see
the difference between the two fuels below. -/

theorem node_succ_fuel {f g id : Nat} {frame : Frame}
    (inner : content t c cl f id frame = content t c cl g id frame) :
    node t c cl (f + 1) id frame = node t c cl (g + 1) id frame := by
  rw [node, node, inner]

theorem flowSequence_succ_fuel {f g id : Nat} {kids : List Nat} (frame : Frame)
    (items : ∀ k ∈ kids, ∀ inner, node t c cl f k inner = node t c cl g k inner) :
    flowSequence t c cl (f + 1) id kids frame = flowSequence t c cl (g + 1) id kids frame := by
  rw [flowSequence, flowSequence]
  congr 1
  funext _
  congr 1
  apply forIn_congr
  rintro ⟨child, i⟩ member s
  dsimp only
  rw [items child (List.fst_mem_of_mem_zipIdx member)]

theorem flowMapping_succ_fuel {f g id : Nat} {kids : List Nat} (frame : Frame)
    (items : ∀ k ∈ kids, ∀ inner, node t c cl f k inner = node t c cl g k inner) :
    flowMapping t c cl (f + 1) id kids frame = flowMapping t c cl (g + 1) id kids frame := by
  rw [flowMapping, flowMapping]
  congr 1
  funext _
  congr 1
  apply forIn_congr
  rintro ⟨⟨key, value⟩, i⟩ member s
  obtain ⟨inKey, inValue⟩ := mem_of_mem_pairsOf (List.fst_mem_of_mem_zipIdx member)
  dsimp only
  rw [items key inKey, items value inValue]

theorem mappingValue_succ_fuel {f g value : Nat} {frame : Frame}
    (item : ∀ inner, node t c cl f value inner = node t c cl g value inner) :
    mappingValue t c cl (f + 1) value frame = mappingValue t c cl (g + 1) value frame := by
  rw [mappingValue, mappingValue]
  simp only [item]

theorem explicitEntry_succ_fuel {f g key value : Nat} {frame : Frame}
    (parts : ∀ n ∈ [key, value], ∀ inner,
      content t c cl f n inner = content t c cl g n inner) :
    explicitEntry t c cl (f + 1) key value frame =
      explicitEntry t c cl (g + 1) key value frame := by
  rw [explicitEntry, explicitEntry]
  congr 1
  apply forIn_congr
  rintro ⟨indicator, n⟩ member s
  have inParts : n ∈ [key, value] := by
    simp only [List.mem_cons, Prod.mk.injEq, List.not_mem_nil, or_false] at member
    rcases member with ⟨-, rfl⟩ | ⟨-, rfl⟩ <;> simp
  dsimp only
  simp only [parts n inParts]

theorem blockMapping_succ_fuel {f g id : Nat} {kids : List Nat} (frame : Frame)
    (keys : ∀ k ∈ kids, ∀ inner, node t c cl f k inner = node t c cl g k inner)
    (values : ∀ k ∈ kids, ∀ inner, mappingValue t c cl f k inner = mappingValue t c cl g k inner)
    (entries : ∀ k ∈ kids, ∀ k' ∈ kids, ∀ inner,
      explicitEntry t c cl f k k' inner = explicitEntry t c cl g k k' inner) :
    blockMapping t c cl (f + 1) id kids frame = blockMapping t c cl (g + 1) id kids frame := by
  rw [blockMapping, blockMapping]
  congr 1
  funext _
  congr 1
  apply forIn_congr
  rintro ⟨key, value⟩ member s
  obtain ⟨inKey, inValue⟩ := mem_of_mem_pairsOf member
  dsimp only
  rw [entries key inKey value inValue, keys key inKey, values value inValue]

theorem blockSequence_succ_fuel {f g id : Nat} {kids : List Nat} (frame : Frame)
    (items : ∀ k ∈ kids, ∀ inner, node t c cl f k inner = node t c cl g k inner) :
    blockSequence t c cl (f + 1) id kids frame = blockSequence t c cl (g + 1) id kids frame := by
  rw [blockSequence, blockSequence]
  congr 1
  funext _
  congr 1
  apply forIn_congr
  intro item member s
  rw [items item member]

theorem node_fuel_of_content {id : Nat}
    (contents : ∀ F G, 4 * id + 3 ≤ F → 4 * id + 3 ≤ G → ∀ frame,
      content t c cl F id frame = content t c cl G id frame)
    {F G : Nat} (enoughF : 4 * id + 4 ≤ F) (enoughG : 4 * id + 4 ≤ G) (frame : Frame) :
    node t c cl F id frame = node t c cl G id frame := by
  obtain ⟨f, rfl⟩ : ∃ f, F = f + 1 := ⟨F - 1, by omega⟩
  obtain ⟨g, rfl⟩ : ∃ g, G = g + 1 := ⟨G - 1, by omega⟩
  exact node_succ_fuel (contents f g (by omega) (by omega) frame)

/-- The content of node `id` is written alike with any fuel from `4 * id + 3` on. The induction
is on the node number: a child has a smaller number, and going down to it costs at most four
units of fuel (collection, value, node, content). -/
theorem content_fuel (id : Nat) :
    ∀ F G, 4 * id + 3 ≤ F → 4 * id + 3 ≤ G → ∀ frame,
      content t c cl F id frame = content t c cl G id frame := by
  induction id using Nat.strong_induction_on with
  | _ id ih =>
  intro F G enoughF enoughG frame
  obtain ⟨f, rfl⟩ : ∃ f, F = f + 1 + 1 + 1 := ⟨F - 3, by omega⟩
  obtain ⟨g, rfl⟩ : ∃ g, G = g + 1 + 1 + 1 := ⟨G - 3, by omega⟩
  have nodes : ∀ j < id, ∀ F' G', 4 * j + 4 ≤ F' → 4 * j + 4 ≤ G' → ∀ inner,
      node t c cl F' j inner = node t c cl G' j inner :=
    fun j lower _ _ enoughF' enoughG' inner =>
      node_fuel_of_content (ih j lower) enoughF' enoughG' inner
  rw [content, content]
  cases found : t.kind? id with
  | none => rfl
  | some k =>
  have below : ∀ j ∈ k.children, j < id := fun _ => Tree.lt_of_kind?_children found
  have items : ∀ j < id, ∀ inner, node t c cl (f + 1) j inner = node t c cl (g + 1) j inner :=
    fun j lower => nodes j lower _ _ (by omega) (by omega)
  dsimp only
  congr 1
  funext _
  cases k with
  | mapping col =>
    have values : ∀ j ∈ col.children, ∀ inner,
        mappingValue t c cl (f + 1) j inner = mappingValue t c cl (g + 1) j inner := by
      intro j member _
      have lower := below j member
      exact mappingValue_succ_fuel (nodes j lower _ _ (by omega) (by omega))
    have entries : ∀ j ∈ col.children, ∀ j' ∈ col.children, ∀ inner,
        explicitEntry t c cl (f + 1) j j' inner = explicitEntry t c cl (g + 1) j j' inner := by
      intro j member j' member' _
      refine explicitEntry_succ_fuel fun n inParts => ?_
      have lower : n < id := by
        simp only [List.mem_cons, List.not_mem_nil, or_false] at inParts
        rcases inParts with rfl | rfl
        · exact below n member
        · exact below n member'
      exact ih n lower f g (by omega) (by omega)
    have keys : ∀ j ∈ col.children, ∀ inner,
        node t c cl (f + 1) j inner = node t c cl (g + 1) j inner :=
      fun j member => items j (below j member)
    dsimp only
    rw [flowMapping_succ_fuel frame keys, blockMapping_succ_fuel frame keys values entries]
  | sequence col =>
    have kids : ∀ j ∈ col.children, ∀ inner,
        node t c cl (f + 1) j inner = node t c cl (g + 1) j inner :=
      fun j member => items j (below j member)
    dsimp only
    rw [flowSequence_succ_fuel frame kids, blockSequence_succ_fuel frame kids]
  | scalar s => rfl
  | «alias» name => rfl
  | document d => rfl
  | stream docs => rfl

theorem node_fuel (id : Nat) {F G : Nat} (enoughF : 4 * id + 4 ≤ F) (enoughG : 4 * id + 4 ≤ G)
    (frame : Frame) : node t c cl F id frame = node t c cl G id frame :=
  node_fuel_of_content (content_fuel id) enoughF enoughG frame

theorem document_fuel {id F G : Nat} {d : Document} (found : t.kind? id = some (.document d))
    (enoughF : 4 * id ≤ F) (enoughG : 4 * id ≤ G) (followsOpen nextHasDirectives : Bool) :
    document t c cl F id d followsOpen nextHasDirectives =
      document t c cl G id d followsOpen nextHasDirectives := by
  have lower : d.root < id := Tree.lt_of_kind?_children found (List.mem_singleton_self _)
  rw [document, document, node_fuel d.root (F := F) (G := G) (by omega) (by omega)]

theorem stream_fuel {id F G : Nat} {docs : List Nat} (found : t.kind? id = some (.stream docs))
    (enoughF : 4 * id ≤ F) (enoughG : 4 * id ≤ G) :
    stream t c cl F id docs = stream t c cl G id docs := by
  rw [stream, stream]
  refine bind_congr fun _ => congrArg (· >>= _) ?_
  apply forIn_congr
  rintro ⟨docId, i⟩ member followsOpen
  have lower : docId < id := Tree.lt_of_kind?_children found (List.fst_mem_of_mem_zipIdx member)
  refine bind_congr fun _ => ?_
  split
  · rename_i d isDocument
    simp only [document_fuel isDocument (F := F) (G := G) (by omega) (by omega)]
  · rfl

/-- The whole tree is written alike with any fuel from four units a node on. -/
theorem root_fuel {r F G : Nat} (inside : r < t.size) (enoughF : 4 * t.size ≤ F)
    (enoughG : 4 * t.size ≤ G) : root t c cl F r = root t c cl G r := by
  obtain ⟨k, found⟩ := Tree.exists_kind? inside
  rw [root, root, found]
  cases k
  case stream docs =>
    dsimp only
    rw [stream_fuel found (F := F) (G := G) (by omega) (by omega)]
  case document d =>
    dsimp only
    rw [document_fuel found (F := F) (G := G) (by omega) (by omega)]
  all_goals
    dsimp only
    rw [node_fuel r (F := F) (G := G) (by omega) (by omega)]

end

end Emit

namespace BulletClaims

variable {t : Tree} {c : Comments}

/-- The walk down a bullet line goes from a node to its first child, so from node `cur` it
settles within `cur + 1` units of fuel. -/
theorem go_fuel {cur F G : Nat} (b : BulletClaims) (acc : List Nat) (enoughF : cur < F)
    (enoughG : cur < G) : claimSpine.go t c F cur b acc = claimSpine.go t c G cur b acc := by
  induction F generalizing cur G b acc with
  | zero => omega
  | succ f ih =>
    obtain ⟨g, rfl⟩ : ∃ g, G = g + 1 := ⟨G - 1, by omega⟩
    simp only [claimSpine.go]
    split
    · rfl
    split
    · rfl
    split
    · rfl
    rename_i k found
    split
    · rfl
    rename_i first rest children
    have lower : first < cur := Tree.lt_of_kind?_children found (by simp [children])
    split
    · rfl
    · exact ih _ _ (by omega) (by omega)

theorem visit_fuel {id F G : Nat} (inFlow : Bool) (b : BulletClaims) (enoughF : id < F)
    (enoughG : id < G) : visit t c F id inFlow b = visit t c G id inFlow b := by
  rw [visit_eq_foldl enoughF, visit_eq_foldl enoughG]

end BulletClaims

namespace Analyzer

/-- The comment analyzer from node `id` settles within `id + 1` units of fuel, whatever tree
its state holds: it goes down from a node to its children only. -/
theorem visit_fuel (id : Nat) : ∀ F G, id < F → id < G → visit F id = visit G id := by
  induction id using Nat.strong_induction_on with
  | _ id ih =>
  intro F G enoughF enoughG
  obtain ⟨f, rfl⟩ : ∃ f, F = f + 1 := ⟨F - 1, by omega⟩
  obtain ⟨g, rfl⟩ : ∃ g, G = g + 1 := ⟨G - 1, by omega⟩
  -- one step of the walk on both sides: check the node, read the state, then act on the node
  -- it finds
  show (lookup id >>= fun _ => MonadState.get >>= _) = (lookup id >>= fun _ => MonadState.get >>= _)
  refine bind_congr fun _ => bind_congr fun a => ?_
  cases found : a.tree.get? id with
  | none => rfl
  | some n =>
  have below : ∀ j ∈ n.kind.children, visit f j = visit g j := fun j child => by
    have lower := Tree.lt_of_get?_children found child
    exact ih j lower f g (by omega) (by omega)
  obtain ⟨kind, start, stop⟩ := n
  cases kind with
  | mapping col | sequence col =>
    -- the loop over the items stands in both branches of whether the collection opens with
    -- a bracket: once with the leading comments read before it, once without
    dsimp only
    refine ite_congr rfl (fun _ => bind_congr fun _ => congrArg (· >>= _) ?_)
      fun _ => congrArg (· >>= _) ?_
    all_goals
      apply forIn_congr
      intro child member _
      rw [below child member]
  | document d =>
    dsimp only
    rw [below d.root (List.mem_singleton_self _)]
  | stream docs =>
    dsimp only
    congr 1
    apply forIn_congr
    intro doc member _
    rw [below doc member]
  | scalar s => rfl
  | «alias» name => rfl

end Analyzer

open Text SourceText in
/-- Every traversal of the library is total and stays in range. Each loop that runs on fuel
settles within the fuel it is given: the writer needs four units a node, the bullet pre-pass and
the comment analyzer one unit a level below the node they start from, the builder twice its
events and its document loop one round an event, and the library passes each at least that;
each scan of the text settles within the fuel the library passes it. The walk and the scalar
search reach nodes of the arena only. Writing a tree built by `push`, whatever its comments and
indent, fails only with an error of its own and never on a lookup past the arena; the pre-pass
sizes its tables to the arena and marks only slots inside them; the analyzer, started inside the
arena, looks up nothing past it; the builder, on every text and every list of events, fails only
with an error of its own, so it never reads a node past the arena, leaves a flow collection it
has not entered or slices the text off a character boundary; and every offset the analyzer
slices at is a character boundary. -/
theorem traversals_total_and_in_bounds :
    (∀ (t : Tree) i, i ∈ t.walk → i < t.size) ∧
    (∀ (t : Tree) value i, t.findScalar? value = some i →
      i ∈ t.walk ∧ ∃ s, t.kind? i = some (.scalar s) ∧ s.value = value) ∧
    (∀ (t : Tree) c cl r, r < t.size →
      FuelSettles (fun F => Emit.root t c cl F r) (4 * t.size)) ∧
    (∀ t c id inFlow b, FuelSettles (fun F => BulletClaims.visit t c F id inFlow b) (id + 1)) ∧
    (∀ t c cur b acc,
      FuelSettles (fun F => BulletClaims.claimSpine.go t c F cur b acc) (cur + 1)) ∧
    (∀ id, FuelSettles (Analyzer.visit · id) (id + 1)) ∧
    (∀ b, FuelSettles (fun F => (Build.stream F).run b) (2 * b.events.size + 1)) ∧
    (∀ fuel acc b, FuelSettles (fun n => (Build.stream.docs fuel n acc).run b) (b.left + 1)) ∧
    (∀ f b lo hi, FuelSettles (lastAtMost.go f b lo hi) (hi + 1)) ∧
    (∀ s p c ok l, FuelSettles (lastBefore.go s p c ok l) (l + 1)) ∧
    (∀ s keep start n column acc,
      FuelSettles (takeWhileFrom.go s keep (start + n) (start + column) acc) (n + 1)) ∧
    (∀ text lo marker i, FuelSettles (findMarkerLine.go (ofString text) lo marker i)
      ((ofString text).lines.size + 1)) ∧
    (∀ source p opening column,
      FuelSettles (delimiterAt.go source p opening column) (source.contentLength p.line + 1)) ∧
    (∀ chars i at0 st, FuelSettles (scanFrom chars i at0 st) (chars.size + 1)) ∧
    (∀ quote bytes q i,
      FuelSettles (fun F => quotedSpan.scan quote bytes q F i) (bytes.size + 1)) ∧
    (∀ (a : AnnotatedTree) (indent : IndentWidth) (e : Error), a.tree.Built →
      a.render indent = .error e → e.isPanic = false) ∧
    (∀ (t : Tree) c, BulletClaims.Sized t (BulletClaims.collect t c)) ∧
    (∀ (a : Analyzer) fuel r, r < a.tree.size → a.panicked = none →
      ((Analyzer.visit fuel r).run a).2.panicked = none) ∧
    (∀ text events (e : Error), Tree.ofEvents text events = .error e → e.isPanic = false) ∧
    (∀ text p, (ofString text).isBoundary ((ofString text).byteOffset p) = true) := by
  refine ⟨?walk, ?search, ?writer, ?bullets, ?spine, ?analyzer, ?builder, ?rounds, ?halving,
    ?backward, ?taking, ?markers, ?delimiter, ?brackets, ?quotes, ?writes, ?claims, ?reads,
    ?builds, ?offsets⟩
  case walk => exact fun t i member => Tree.lt_size_of_mem_walk member
  case search => exact fun t value i found => Tree.findScalar?_spec found
  case writer =>
    intro t c cl r inside
    exact FuelSettles.of_eq fun F G enoughF enoughG => Emit.root_fuel inside enoughF enoughG
  case bullets =>
    intro t c id inFlow b
    exact FuelSettles.of_eq fun F G enoughF enoughG =>
      BulletClaims.visit_fuel inFlow b enoughF enoughG
  case spine =>
    intro t c cur b acc
    exact FuelSettles.of_eq fun F G enoughF enoughG => BulletClaims.go_fuel b acc enoughF enoughG
  case analyzer => exact fun id => FuelSettles.of_eq (Analyzer.visit_fuel id)
  case builder =>
    intro b
    exact FuelSettles.of_eq fun F G enoughF enoughG => Build.stream_fuel enoughF enoughG
  case rounds =>
    intro fuel acc b
    exact FuelSettles.of_eq fun n m enoughN enoughM =>
      Build.docs_rounds fuel n m acc b enoughN enoughM
  -- each scan settles from what it has left to read, which the fuel passed covers
  case halving => exact fun f b lo hi => (lastAtMost.go_settles f b lo hi).mono (by omega)
  case backward => exact fun s p c ok l => lastBefore.go_settles s p c ok l
  case taking =>
    exact fun s keep start n column acc =>
      (takeWhileFrom.go_settles s keep _ _ acc).mono (by omega)
  case markers =>
    intro text lo marker i
    have counted := starts_size_ofString text
    exact (findMarkerLine.go_settles _ lo marker i).mono (by omega)
  case delimiter =>
    exact fun source p opening column =>
      (delimiterAt.go_settles source p opening column).mono (by omega)
  case brackets => exact fun chars i at0 st => (scanFrom_settles chars i at0 st).mono (by omega)
  case quotes =>
    exact fun quote bytes q i => (quotedSpan.scan_settles quote bytes q i).mono (by omega)
  -- every lookup is in range
  case writes => exact fun a indent e built failed => AnnotatedTree.render_error_not_panic built failed
  case claims => exact BulletClaims.collect_sized
  case reads => exact fun a fuel r inside calm => Analyzer.visit_unpanicked fuel inside calm
  case builds => exact fun text events e failed => Tree.ofEvents_error_not_panic failed
  case offsets => exact fun text p => isBoundary_byteOffset p

def scalarSample : Tree := ⟨#[{ kind := .scalar { value := "a" } }], by decide⟩

/-- Writing the one-scalar tree settles from four units of fuel. -/
theorem scalarSample_writes_settle :
    FuelSettles (fun F => Emit.root scalarSample (Comments.forTree scalarSample)
      (BulletClaims.collect scalarSample (Comments.forTree scalarSample)) F 0)
      (4 * scalarSample.size) :=
  traversals_total_and_in_bounds.2.2.1 scalarSample _ _ 0 (by decide)

end AnnotatedYaml
