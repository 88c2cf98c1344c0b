import AnnotatedYaml.Proofs.Layout.Refused
import AnnotatedYaml.Proofs.Comment.Pieces

/-! Writing a tree built by `push` refuses a comment only for a stored one, and never panics. -/

namespace AnnotatedYaml

variable {t : Tree} {c : Comments} {claims : BulletClaims}

/-- `x` is a stored comment of `c` with white space cut from its front. -/
def Comments.HasTrimmed (c : Comments) (x : String) : Prop := ∃ s ∈ c.all, x = Text.trimStart s

theorem Comments.mem_get_all {i : Nat} {s : String} :
    s ∈ (c.get i).all ↔ s ∈ c.leading i ∨ c.lineEnd i = some s ∨ s ∈ c.trailing i := by
  simp [Attachment.all, Comments.leading, Comments.lineEnd, Comments.trailing, eq_comm]

theorem Comments.hasTrimmed_of_mem (i : Nat) {lines : List String} {x : String}
    (slot : ∀ s ∈ lines, s ∈ (c.get i).all) (member : x ∈ trimmed lines) : c.HasTrimmed x := by
  obtain ⟨s, inside, rfl⟩ := List.mem_map.mp (Multiset.mem_coe.mp member)
  exact ⟨s, Comments.mem_all_of_mem_get (slot s inside), rfl⟩

theorem exists_of_mem_sum_map {β : Type} {xs : List β} {f : β → Multiset String} {x : String}
    (member : x ∈ (xs.map f).sum) : ∃ y ∈ xs, x ∈ f y := by
  induction xs with
  | nil => simp at member
  | cons y rest ih =>
    rw [List.map_cons, List.sum_cons, Multiset.mem_add] at member
    rcases member with here | later
    · exact ⟨y, List.mem_cons_self, here⟩
    · obtain ⟨z, inside, found⟩ := ih later
      exact ⟨z, List.mem_cons_of_mem y inside, found⟩

namespace Emit

theorem hasTrimmed_of_mem_owedAt {y : Nat} {inFlow : Bool} {x : String}
    (member : x ∈ owedAt t c claims y inFlow) : c.HasTrimmed x := by
  simp only [owedAt, leadOwed, endOwed, hoistedAt, Multiset.mem_add] at member
  rcases member with (lead | ending) | hoisted
  · split at lead
    · cases lead
    · exact c.hasTrimmed_of_mem y (fun s inside => Comments.mem_get_all.mpr (.inl inside)) lead
  · refine c.hasTrimmed_of_mem y (fun s inside => Comments.mem_get_all.mpr ?_) ending
    rcases List.mem_append.mp inside with lineEnd | trailing
    · split at lineEnd
      · cases lineEnd
      · exact .inr (.inl (Option.mem_toList.mp lineEnd))
    · exact .inr (.inr trailing)
  · split at hoisted
    · obtain ⟨s, inside, rfl⟩ := List.mem_map.mp (Multiset.mem_coe.mp hoisted)
      obtain ⟨_, _, inHoisted⟩ := List.mem_flatMap.mp inside
      obtain ⟨j, _, lead⟩ := List.mem_flatMap.mp inHoisted
      exact ⟨s, Comments.mem_all_of_mem_get (Comments.mem_get_all.mpr (.inl lead)), rfl⟩
    · cases hoisted

theorem hasTrimmed_of_mem_owedBelow {y : Nat} {inFlow : Bool} {x : String}
    (member : x ∈ owedBelow t c claims y inFlow) : c.HasTrimmed x := by
  obtain ⟨p, _, inside⟩ := exists_of_mem_sum_map member
  exact hasTrimmed_of_mem_owedAt inside

theorem hasTrimmed_of_mem_around {y : Nat} {M : Multiset String} {x : String}
    (middle : ∀ x ∈ M, c.HasTrimmed x)
    (member : x ∈ trimmed (c.leading y) + M + trimmed (c.trailing y)) : c.HasTrimmed x := by
  rcases Multiset.mem_add.mp member with early | trailing
  · rcases Multiset.mem_add.mp early with leading | inside
    · exact c.hasTrimmed_of_mem y (fun _ lead => Comments.mem_get_all.mpr (.inl lead)) leading
    · exact middle x inside
  · exact c.hasTrimmed_of_mem y (fun _ trail => Comments.mem_get_all.mpr (.inr (.inr trail)))
      trailing

theorem document_checks_stored (paired : t.PairsChildren) {y : Nat} {d : Document}
    (found : t.kind? y = some (.document d)) (followsOpen nextHasDirectives : Bool) :
    Checks (document t c claims (8 * (t.size + 1)) y d followsOpen nextHasDirectives)
      (fun _ => True) (t.BadValue d.root)
      (trimmed (c.leading y) + owedBelow t c claims d.root false + trimmed (c.trailing y)) := by
  have member : d.root ∈ t.childrenOf y := by
    simp [Tree.childrenOf, found, NodeKind.children]
  have below := Tree.lt_of_mem_childrenOf member
  have inside := Tree.lt_size_of_kind? found
  exact document_checks _ _ d _ _ (node_fails paired d.root (by omega) _ _ (by omega))

/-- Writing from the root checks stored comments only. Unlike `root_checks`, this holds of any
arena, tree-shaped or not. -/
theorem root_checks_stored (paired : t.PairsChildren) {r : Nat} (root : t.root? = some r) :
    ∃ bad N, Checks (Emit.root t c claims (8 * (t.size + 1)) r) (fun _ => True) bad N ∧
      ∀ x ∈ N, c.HasTrimmed x := by
  have inside : r < t.size := by have := Tree.root_eq root; omega
  obtain ⟨k, found⟩ := Tree.exists_kind? inside
  rw [Emit.root, found]
  cases k
  case stream docs =>
    -- each listed node is a document that writes its root as a value, or is refused
    refine ⟨_, _, Checks.afterLookup inside (stream_checks _ r docs
      (fun y => t.isDocument y = false ∨ ∃ d, t.kind? y = some (.document d) ∧ t.BadValue d.root)
      (fun y => trimmed (c.leading y) +
        ((t.childrenOf y).map fun k => owedBelow t c claims k false).sum + trimmed (c.trailing y))
      (fun y member => Tree.lt_size_of_mem_children found member)
      fun y _ => ⟨fun d isDocument _ _ => ?_, .inl⟩), ?_⟩
    · have listed : t.isDocument y = true := by simp [Tree.isDocument, isDocument]
      refine (document_checks_stored paired isDocument _ _).mono (fun _ _ => trivial) ?_ ?_
      · simp [listed, isDocument]
      · simp [Tree.childrenOf, isDocument, NodeKind.children]
    · intro x member
      refine hasTrimmed_of_mem_around (fun x inside => ?_) member
      obtain ⟨y, _, fromDoc⟩ := exists_of_mem_sum_map inside
      refine hasTrimmed_of_mem_around (fun x below => ?_) fromDoc
      obtain ⟨_, _, owed⟩ := exists_of_mem_sum_map below
      exact hasTrimmed_of_mem_owedBelow owed
  case document d =>
    exact ⟨_, _, Checks.afterLookup inside (Checks.seq
      (document_checks_stored paired found false false) (fun _ _ => Checks.unit ()) (or_false _)
      (add_zero _)),
      fun x member => hasTrimmed_of_mem_around (fun x owed => hasTrimmed_of_mem_owedBelow owed)
        member⟩
  -- any other root is written as a value, then the last line is ended
  all_goals
    exact ⟨_, _, Checks.afterLookup inside (Checks.seq (node_fails paired r inside _ _ (by omega))
      (fun _ _ => Checks.out _) (or_false _) (add_zero _)),
      fun x owed => hasTrimmed_of_mem_owedBelow owed⟩

end Emit

/-- Writing a tree built by `push` fails only for a node that cannot stand where it is met or
for a stored comment that, white space cut from its front, is no comment line. -/
theorem AnnotatedTree.render_error_cases {a : AnnotatedTree} {indent : IndentWidth}
    (built : a.tree.Built) {e : Error} (failed : a.render indent = .error e) :
    e.isUnexpectedNode = true ∨
      e.isMalformedComment = true ∧ ∃ s ∈ a.comments.all, ¬IsCommentLine (Text.trimStart s) := by
  unfold AnnotatedTree.render AnnotatedTree.write at failed
  cases root : a.tree.root? with
  | none =>
    simp [root, Except.map] at failed
  | some r =>
    have written : ∃ bad N, Emit.Checks (Emit.root a.tree a.comments
        (BulletClaims.collect a.tree a.comments) (8 * (a.tree.size + 1)) r) (fun _ => True) bad N ∧
        ∀ x ∈ N, a.comments.HasTrimmed x := Emit.root_checks_stored built.pairsChildren root
    obtain ⟨bad, N, checks, stored⟩ := written
    simp only [root] at failed
    cases ran : (Emit.root a.tree a.comments (BulletClaims.collect a.tree a.comments)
        (8 * (a.tree.size + 1)) r).run { unit := indent.width } with
    | ok res =>
      simp [ran, Except.map] at failed
    | error e' =>
      have same : e' = e := by simpa [ran, Except.map] using failed
      subst same
      rcases Hoare.error_of checks trivial ran with ⟨node, _⟩ | ⟨malformed, x, member, wrong⟩
      · exact .inl node
      · obtain ⟨s, storedS, rfl⟩ := stored x member
        exact .inr ⟨malformed, s, storedS, wrong⟩

/-- Writing a tree built by `push` refuses a comment only when a stored comment, white space
cut from its front, is no comment line. -/
theorem AnnotatedTree.malformed_of_render {a : AnnotatedTree} {indent : IndentWidth}
    (built : a.tree.Built) {e : Error} (failed : a.render indent = .error e)
    (malformed : e.isMalformedComment = true) :
    ∃ s ∈ a.comments.all, ¬IsCommentLine (Text.trimStart s) := by
  rcases AnnotatedTree.render_error_cases built failed with node | ⟨_, found⟩
  · -- an error names one cause only
    cases e <;> simp [Error.isUnexpectedNode, Error.isMalformedComment] at node malformed
  · exact found

/-- Writing a tree built by `push` never panics, whatever its comments: every node, slot and
table it looks up is in range. -/
theorem AnnotatedTree.render_error_not_panic {a : AnnotatedTree} {indent : IndentWidth}
    (built : a.tree.Built) {e : Error} (failed : a.render indent = .error e) :
    e.isPanic = false := by
  rcases AnnotatedTree.render_error_cases built failed with node | ⟨malformed, _⟩
  · cases e <;> simp_all [Error.isUnexpectedNode, Error.isPanic]
  · cases e <;> simp_all [Error.isMalformedComment, Error.isPanic]

end AnnotatedYaml
