import AnnotatedYaml.Proofs.Layout.Log

/-! When writing fails, and with which error: only a misplaced node or a stored comment that is no
comment line. -/

namespace AnnotatedYaml

/-- A comment as the writer prints it: `#` and the rest of a single line. -/
def IsCommentLine (text : String) : Prop :=
  text.startsWith "#" = true ∧ '\n' ∉ text.toList ∧ '\r' ∉ text.toList

instance : DecidablePred IsCommentLine := fun _ =>
  inferInstanceAs (Decidable (_ ∧ _ ∧ _))

def Error.isUnexpectedNode : Error → Bool
  | .unexpectedNode .. => true
  | _ => false

def Error.isMalformedComment : Error → Bool
  | .malformedComment .. => true
  | _ => false

/-- A stored comment is written when, white space cut from its front, it is a comment line;
otherwise it is refused with an error that names its node and quotes it. -/
theorem commentText_eq (id : Nat) (text : String) :
    commentText id text = if IsCommentLine (Text.trimStart text) then .ok (Text.trimStart text)
      else .error (.malformedComment id text) := by
  unfold commentText
  dsimp only
  split
  · rename_i refused
    rw [if_neg]
    rintro ⟨hash, noLf, noCr⟩
    simp [hash, noLf, noCr] at refused
  · rename_i passed
    simp only [Bool.or_eq_true, Bool.not_eq_eq_eq_not, Bool.not_true, List.contains_iff_mem,
      not_or] at passed
    rw [if_pos]
    exact ⟨by simpa using passed.1.1, passed.1.2, passed.2⟩

namespace Emit

section

variable {α β : Type}

/-- Run from any writer, `m` fails exactly when `bad` holds or a text of `N` is not a comment
line. An unexpected node is reported only when `bad` holds, a malformed comment only when some
text of `N` is at fault, and a result satisfies `post`. -/
def Checks (m : Emit α) (post : α → Prop) (bad : Prop) (N : Multiset String) : Prop :=
  Hoare (fun _ => True) m (fun a _ => post a ∧ ¬bad ∧ ∀ x ∈ N, IsCommentLine x)
    fun e => (e.isUnexpectedNode ∧ bad) ∨ (e.isMalformedComment ∧ ∃ x ∈ N, ¬IsCommentLine x)

theorem Checks.pure (a : α) : Checks (Pure.pure a : Emit α) (fun b => b = a) False 0 :=
  Hoare.pure a fun _ _ => ⟨rfl, not_false, by simp⟩

theorem Checks.unit (a : α) : Checks (Pure.pure a : Emit α) (fun _ => True) False 0 :=
  Hoare.pure a fun _ _ => ⟨trivial, not_false, by simp⟩

theorem Checks.bind {m : Emit α} {f : α → Emit β} {post : α → Prop} {post' : β → Prop}
    {bad bad' : Prop} {M N : Multiset String} (first : Checks m post bad M)
    (rest : ∀ a, post a → Checks (f a) post' bad' N) :
    Checks (m >>= f) post' (bad ∨ bad') (M + N) := by
  refine Hoare.bind (Hoare.mono first (fun _ _ => trivial) (fun _ _ done => done) fun e failed => ?_)
    fun a => Hoare.intro fun _ ⟨holds, fine, written⟩ => ?_
  · -- a failure of the first part names a cause of that part
    rcases failed with ⟨kind, cause⟩ | ⟨kind, x, member, wrong⟩
    · exact .inl ⟨kind, .inl cause⟩
    · exact .inr ⟨kind, x, Multiset.mem_add.mpr (.inl member), wrong⟩
  refine Hoare.mono (rest a holds) (fun _ _ => trivial)
    (fun _ _ ⟨holds', fine', written'⟩ => ⟨holds', not_or.mpr ⟨fine, fine'⟩, fun x member => ?_⟩)
    fun e failed => ?_
  · rcases Multiset.mem_add.mp member with early | late
    · exact written x early
    · exact written' x late
  · rcases failed with ⟨kind, cause⟩ | ⟨kind, x, member, wrong⟩
    · exact .inl ⟨kind, .inr cause⟩
    · exact .inr ⟨kind, x, Multiset.mem_add.mpr (.inr member), wrong⟩

theorem Checks.mono {m : Emit α} {post post' : α → Prop} {bad bad' : Prop}
    {M N : Multiset String} (checks : Checks m post bad M) (weaker : ∀ a, post a → post' a)
    (sameBad : bad ↔ bad') (same : M = N) : Checks m post' bad' N := by
  subst same
  refine Hoare.mono checks (fun _ _ => trivial)
    (fun a _ ⟨holds, fine, written⟩ => ⟨weaker a holds, sameBad.not.mp fine, written⟩)
    fun e failed => ?_
  rcases failed with ⟨kind, cause⟩ | wrong
  · exact .inl ⟨kind, sameBad.mp cause⟩
  · exact .inr wrong

theorem Checks.seq {m : Emit α} {f : α → Emit β} {post : α → Prop} {post' : β → Prop}
    {bad bad' cause : Prop} {M N K : Multiset String} (first : Checks m post bad M)
    (rest : ∀ a, post a → Checks (f a) post' bad' N) (sameBad : (bad ∨ bad') = cause)
    (total : M + N = K) : Checks (m >>= f) post' cause K :=
  (first.bind rest).mono (fun _ holds => holds) (Iff.of_eq sameBad) total

theorem Checks.out (f : LineWriter → LineWriter) :
    Checks (Emit.out f) (fun _ => True) False 0 :=
  Hoare.modify f fun _ _ => ⟨trivial, not_false, by simp⟩

theorem Checks.afterOut (f : LineWriter → LineWriter) {m : Emit α} {post : α → Prop}
    {bad : Prop} {M : Multiset String} (rest : Checks m post bad M) :
    Checks (Emit.out f >>= fun _ => m) post bad M :=
  Checks.seq (Checks.out f) (fun _ _ => rest) (false_or bad) (zero_add M)

theorem Checks.afterLookup {t : Tree} {id : Nat} (inside : id < t.size) {m : Emit α}
    {post : α → Prop} {bad : Prop} {M : Multiset String} (rest : Checks m post bad M) :
    Checks (Emit.lookup t id >>= fun _ => m) post bad M := by
  have looked : Checks (Emit.lookup t id) (fun _ => True) False 0 := by
    rw [Emit.lookup, if_pos inside]
    exact Checks.unit ()
  exact Checks.seq looked (fun _ _ => rest) (false_or bad) (zero_add M)

theorem Checks.get : Checks (MonadState.get : Emit LineWriter) (fun _ => True) False 0 :=
  Hoare.get fun _ _ => ⟨trivial, not_false, by simp⟩

theorem Checks.unexpected (id : Nat) (found : String) (role : NodeRole) (post : α → Prop)
    {bad : Prop} (cause : bad) (N : Multiset String) :
    Checks (MonadExcept.throw (Error.unexpectedNode id found role) : Emit α) post bad N :=
  Hoare.throw (.inl ⟨rfl, cause⟩)

theorem Checks.commentText (id : Nat) (line : String) :
    Checks (Emit.liftExcept (commentText id line)) (fun text => text = Text.trimStart line)
      False {Text.trimStart line} := by
  unfold Emit.liftExcept
  rw [commentText_eq]
  by_cases good : IsCommentLine (Text.trimStart line)
  · rw [if_pos good]
    exact Hoare.pure _ fun _ _ => ⟨rfl, not_false, by simpa using good⟩
  · rw [if_neg good]
    exact Hoare.throw (.inr ⟨rfl, Text.trimStart line, Multiset.mem_singleton_self _, good⟩)

theorem Checks.ite {c : Prop} [Decidable c] {m m' : Emit α} {post : α → Prop} {bad : Prop}
    {M : Multiset String} (yes : c → Checks m post bad M) (no : ¬c → Checks m' post bad M) :
    Checks (if c then m else m') post bad M :=
  Hoare.ite yes no

theorem Checks.optionalOut {c : Prop} [Decidable c] (f : LineWriter → LineWriter) {m : Emit α}
    {post : α → Prop} {bad : Prop} {M : Multiset String} (rest : Checks m post bad M) :
    Checks (if c then Emit.out f >>= fun _ => m else m) post bad M :=
  Checks.ite (fun _ => Checks.afterOut f rest) (fun _ => rest)

theorem Checks.yield {σ : Type} (s : σ) :
    Checks (Pure.pure (ForInStep.yield s) : Emit (ForInStep σ)) (fun r => ∃ s', r = .yield s')
      False 0 :=
  (Checks.pure _).mono (fun _ same => ⟨s, same⟩) Iff.rfl rfl

theorem Checks.thenYield {σ : Type} {m : Emit α} {post : α → Prop} {bad : Prop}
    {M : Multiset String} (first : Checks m post bad M) (s : σ) :
    Checks (m >>= fun _ => Pure.pure (ForInStep.yield s)) (fun r => ∃ s', r = .yield s') bad M :=
  Checks.seq first (fun _ _ => Checks.yield s) (or_false bad) (add_zero M)

theorem Checks.forIn {σ : Type} (xs : List β) (s : σ) {f : β → σ → Emit (ForInStep σ)}
    {P : β → Prop} {M : β → Multiset String}
    (step : ∀ x ∈ xs, ∀ s, Checks (f x s) (fun r => ∃ s', r = .yield s') (P x) (M x)) :
    Checks (ForIn.forIn xs s f) (fun _ => True) (∃ x ∈ xs, P x) (xs.map M).sum := by
  induction xs generalizing s with
  | nil =>
    simpa using (Checks.pure s).mono (fun _ _ => trivial) Iff.rfl rfl
  | cons x rest ih =>
    rw [List.forIn_cons, List.map_cons, List.sum_cons]
    apply Checks.seq (step x List.mem_cons_self s)
    · rintro r ⟨s', rfl⟩
      exact ih s' fun y member => step y (List.mem_cons_of_mem x member)
    · simp
    · rfl

end

theorem comments_checks (id depth : Nat) (lines : List String) :
    Checks (comments id depth lines) (fun _ => True) False (trimmed lines) := by
  unfold comments
  apply Checks.seq (Checks.forIn lines PUnit.unit (P := fun _ => False) _)
    (fun _ _ => Checks.unit ()) (by simp)
  · rw [trimmed_eq_sum, add_zero]
  · intro line _ _
    apply Checks.seq (Checks.commentText id line)
    · intro text _
      apply Checks.afterOut
      exact Checks.afterOut _ (Checks.afterOut _ (Checks.yield _))
    · exact or_self False
    · simp

section

variable (c : Comments) (id : Nat)

theorem lineEnd_checks :
    Checks (lineEnd c id) (fun _ => True) False (trimmed (c.lineEnd id).toList) := by
  unfold lineEnd
  split
  · rename_i none
    rw [none]
    exact Checks.unit false
  · rename_i line some
    rw [some]
    apply Checks.seq (Checks.commentText id line)
    · intro text _
      exact Checks.afterOut _ (Checks.afterOut _ (Checks.unit true))
    · exact or_self False
    · simp

theorem inlineEnd_checks (frame : Frame) :
    Checks (inlineEnd c id frame) (fun _ => True) False
      (trimmed ((c.lineEnd id).toList ++ c.trailing id)) := by
  unfold inlineEnd
  apply Checks.seq (lineEnd_checks c id)
  · intro ended _
    exact Checks.optionalOut _ (comments_checks id frame.depth (c.trailing id))
  · exact or_self False
  · simp

theorem scalar_checks (s : Scalar) (frame : Frame) :
    Checks (scalar c id s frame) (fun _ => True) False
      (trimmed ((c.lineEnd id).toList ++ c.trailing id)) := by
  unfold scalar
  apply Checks.seq Checks.get
  · intro writer _
    dsimp only
    split
    · exact Checks.afterOut _ (inlineEnd_checks c id frame)
    · apply Checks.afterOut
      apply Checks.seq (lineEnd_checks c id)
      · intro _ _
        exact Checks.afterOut _ (comments_checks id frame.depth (c.trailing id))
      · exact or_self False
      · simp
  · exact or_self False
  · exact zero_add _

theorem blockEnd_checks (depth : Nat) :
    Checks (blockEnd c id depth) (fun _ => True) False
      (trimmed ((c.lineEnd id).toList ++ c.trailing id)) := by
  unfold blockEnd
  split
  · rename_i line some
    rw [some]
    exact Checks.seq (comments_checks id depth [line])
      (fun _ _ => comments_checks id depth (c.trailing id)) (or_self False) (by simp)
  · rename_i none
    rw [Option.eq_none_iff_forall_ne_some.mpr none]
    simpa using comments_checks id depth (c.trailing id)

end

theorem properties_checks (k : NodeKind) (frame : Frame) :
    Checks (properties k frame) (fun _ => True) False 0 := by
  unfold properties
  dsimp only
  split
  on_goal 1 =>
    apply Checks.afterOut
    apply Checks.afterOut
  -- With or without an anchor, the tag is written next.
  all_goals
    split
    · exact Checks.afterOut _ (Checks.out _)
    · exact Checks.unit ()

theorem documentStart_checks (c : Comments) (d : Document) (followsOpen : Bool) :
    Checks (documentStart c d followsOpen) (fun _ => True) False 0 := by
  rw [documentStart]
  apply Checks.seq (Checks.forIn (P := fun _ => False) (M := fun _ => 0) _ _ ?directive)
  case directive =>
    intro _ _ _
    exact Checks.afterOut _ (Checks.afterOut _ ((Checks.out _).thenYield _))
  · intro _ _
    apply Checks.ite
    · intro _
      apply Checks.afterOut
      apply Checks.afterOut
      exact Checks.ite (fun _ => Checks.out _) (fun _ => Checks.out _)
    · intro _
      exact Checks.unit ()
  · simp
  · simp

theorem nextHasDirectives_checks {t : Tree} {next : Option Nat}
    (inside : ∀ n ∈ next, n < t.size) :
    Checks (nextHasDirectives t next) (fun _ => True) False 0 := by
  unfold nextHasDirectives
  split
  · exact Checks.unit false
  · rename_i n
    apply Checks.afterLookup (inside n rfl)
    split <;> exact Checks.unit _

end Emit

end AnnotatedYaml
