import Mathlib.Algebra.BigOperators.Group.Multiset.Basic
import AnnotatedYaml.Layout.Render
import AnnotatedYaml.Proofs.Hoare

/-! What a writing action adds to the writer's record of comment texts. -/

namespace AnnotatedYaml

namespace LineWriter

variable (w : LineWriter)

@[simp] theorem pad_commentLog (width : Nat) : (w.pad width).commentLog = w.commentLog := rfl

@[simp] theorem write_commentLog (depth : Nat) (text : String) :
    (w.write depth text).commentLog = w.commentLog := by
  unfold write
  split
  · split <;> rfl
  · split <;> rfl

@[simp] theorem place_commentLog (p : Placement) : (w.place p).commentLog = w.commentLog := rfl

@[simp] theorem writeComment_commentLog (depth : Nat) (text : String) :
    (w.writeComment depth text).commentLog = w.commentLog ++ [text] := rfl

@[simp] theorem space_commentLog : w.space.commentLog = w.commentLog := by
  unfold space
  split <;> rfl

@[simp] theorem newline_commentLog : w.newline.commentLog = w.commentLog := by
  unfold newline
  split <;> rfl

@[simp] theorem bullet_commentLog (depth : Nat) (marker : String) :
    (w.bullet depth marker).commentLog = w.commentLog := by
  simp [bullet]

@[simp] theorem closeBullet_commentLog : w.closeBullet.commentLog = w.commentLog := by
  unfold closeBullet
  split <;> rfl

@[simp] theorem bodyLine_commentLog (width : Nat) (line : String) :
    (w.bodyLine width line).commentLog = w.commentLog := by
  unfold bodyLine
  split <;> rfl

@[simp] theorem blockLines_commentLog (depth : Nat) (lines : List String) :
    (w.blockLines depth lines).commentLog = w.commentLog := by
  simp only [blockLines]
  generalize w.unit * (depth + 1) = width
  induction lines generalizing w with
  | nil => rfl
  | cons line rest ih => rw [List.foldl_cons, ih, bodyLine_commentLog]

end LineWriter

/-- The texts of stored comments as the writer prints them, white space cut from the front. -/
def trimmed (lines : List String) : Multiset String := ↑(lines.map Text.trimStart)

@[simp] theorem trimmed_nil : trimmed [] = 0 := rfl

@[simp] theorem trimmed_cons (line : String) (lines : List String) :
    trimmed (line :: lines) = Text.trimStart line ::ₘ trimmed lines := rfl

@[simp] theorem trimmed_append (first second : List String) :
    trimmed (first ++ second) = trimmed first + trimmed second := by
  simp [trimmed]

theorem trimmed_eq_sum (lines : List String) :
    trimmed lines = (lines.map fun line => ({Text.trimStart line} : Multiset String)).sum := by
  induction lines with
  | nil => rfl
  | cons line rest ih => simp [ih, Multiset.singleton_add]

theorem commentText_eq_ok {id : Nat} {line text : String} (ok : commentText id line = .ok text) :
    text = Text.trimStart line := by
  unfold commentText at ok
  dsimp only at ok
  split at ok
  · cases ok
  · cases ok
    rfl

namespace Emit

section

variable {α β : Type}

@[simp] theorem pure_apply (a : α) (w : LineWriter) : (pure a : Emit α) w = .ok (a, w) := rfl

@[simp] theorem get_apply (w : LineWriter) : (get : Emit LineWriter) w = .ok (w, w) := rfl

@[simp] theorem out_apply (f : LineWriter → LineWriter) (w : LineWriter) :
    out f w = .ok ((), f w) := rfl

@[simp] theorem throw_apply (e : Error) (w : LineWriter) : (throw e : Emit α) w = .error e := rfl

theorem bind_apply (m : Emit α) (f : α → Emit β) (w : LineWriter) :
    (m >>= f) w = match m w with
      | .ok (a, v) => f a v
      | .error e => .error e := by
  show (m w >>= fun p => f p.1 p.2) = _
  cases m w <;> rfl

/-- Run from any writer, `m` adds exactly the texts `M` to the comment record whenever it
succeeds, and its result satisfies `post`. -/
def Logs (m : Emit α) (post : α → Prop) (M : Multiset String) : Prop :=
  ∀ w₀, Hoare (· = w₀) m
    (fun a w => post a ∧ (w.commentLog : Multiset String) = ↑w₀.commentLog + M) fun _ => True

theorem Logs.ok_of {m : Emit α} {post : α → Prop} {M : Multiset String} (logs : Logs m post M)
    {w : LineWriter} {r : α × LineWriter} (ran : m w = .ok r) :
    post r.1 ∧ (r.2.commentLog : Multiset String) = ↑w.commentLog + M :=
  (logs w).ok_of rfl ran

theorem Logs.pure (a : α) : Logs (Pure.pure a : Emit α) (fun b => b = a) 0 := fun _ =>
  Hoare.pure a fun _ same => ⟨rfl, by simp [same]⟩

theorem Logs.unit (a : α) : Logs (Pure.pure a : Emit α) (fun _ => True) 0 := fun _ =>
  Hoare.pure a fun _ same => ⟨trivial, by simp [same]⟩

theorem Logs.bind {m : Emit α} {f : α → Emit β} {post : α → Prop} {post' : β → Prop}
    {M N : Multiset String} (first : Logs m post M) (rest : ∀ a, post a → Logs (f a) post' N) :
    Logs (m >>= f) post' (M + N) := by
  intro w₀
  refine Hoare.bind (first w₀) fun a => Hoare.intro fun w ⟨holds, logged⟩ => ?_
  refine (rest a holds w).mono (fun _ same => same) (fun b w' ⟨holds', logged'⟩ => ⟨holds', ?_⟩)
    fun _ failed => failed
  rw [logged', logged, add_assoc]

theorem Logs.seq {m : Emit α} {f : α → Emit β} {post : α → Prop} {post' : β → Prop}
    {M N K : Multiset String} (first : Logs m post M) (rest : ∀ a, post a → Logs (f a) post' N)
    (total : M + N = K) : Logs (m >>= f) post' K :=
  total ▸ first.bind rest

theorem Logs.mono {m : Emit α} {post post' : α → Prop} {M N : Multiset String}
    (logs : Logs m post M) (weaker : ∀ a, post a → post' a) (same : M = N) : Logs m post' N :=
  fun w₀ => (logs w₀).mono (fun _ start => start)
    (fun a _ ⟨holds, logged⟩ => ⟨weaker a holds, same ▸ logged⟩) fun _ failed => failed

theorem Logs.out (f : LineWriter → LineWriter) (kept : ∀ w, (f w).commentLog = w.commentLog) :
    Logs (Emit.out f) (fun _ => True) 0 := fun _ =>
  Hoare.modify f fun w same => ⟨trivial, by simp [kept, same]⟩

theorem Logs.afterOut {f : LineWriter → LineWriter} {m : Emit α} {post : α → Prop}
    {M : Multiset String} (kept : ∀ w, (f w).commentLog = w.commentLog) (rest : Logs m post M) :
    Logs (Emit.out f >>= fun _ => m) post M :=
  Logs.seq (Logs.out f kept) (fun _ _ => rest) (zero_add M)

theorem Logs.writeComment (depth : Nat) (text : String) :
    Logs (Emit.out (·.writeComment depth text)) (fun _ => True) {text} := fun _ =>
  Hoare.modify _ fun w same => ⟨trivial, by
    simp only [same, LineWriter.writeComment_commentLog, ← Multiset.coe_singleton,
      Multiset.coe_add]⟩

theorem Logs.get : Logs (MonadState.get : Emit LineWriter) (fun _ => True) 0 := fun _ =>
  Hoare.get fun w same => ⟨trivial, by simp [same]⟩

theorem Logs.throw (e : Error) (post : α → Prop) (M : Multiset String) :
    Logs (MonadExcept.throw e : Emit α) post M := fun _ =>
  Hoare.throw trivial

theorem Logs.liftExcept (e : Except Error α) :
    Logs (Emit.liftExcept e) (fun a => e = .ok a) 0 := by
  intro w₀
  cases e with
  | ok a => exact Hoare.pure a fun _ same => ⟨rfl, by simp [same]⟩
  | error err => exact Hoare.throw trivial

theorem Logs.ite {c : Prop} [Decidable c] {m m' : Emit α} {post : α → Prop} {M : Multiset String}
    (yes : c → Logs m post M) (no : ¬c → Logs m' post M) :
    Logs (if c then m else m') post M := fun w₀ =>
  Hoare.ite (fun holds => yes holds w₀) fun fails => no fails w₀

theorem Logs.afterLookup {t : Tree} {id : Nat} {m : Emit α} {post : α → Prop}
    {M : Multiset String} (rest : Logs m post M) : Logs (Emit.lookup t id >>= fun _ => m) post M := by
  have looked : Logs (Emit.lookup t id) (fun _ => True) 0 := by
    unfold Emit.lookup
    split
    · exact Logs.unit ()
    · exact Logs.throw _ _ _
  exact Logs.seq looked (fun _ _ => rest) (zero_add M)

theorem Logs.optionalOut {c : Prop} [Decidable c] {f : LineWriter → LineWriter} {m : Emit α}
    {post : α → Prop} {M : Multiset String} (kept : ∀ w, (f w).commentLog = w.commentLog)
    (rest : Logs m post M) : Logs (if c then Emit.out f >>= fun _ => m else m) post M :=
  Logs.ite (fun _ => Logs.afterOut kept rest) (fun _ => rest)

theorem Logs.yield {σ : Type} (s : σ) :
    Logs (Pure.pure (ForInStep.yield s) : Emit (ForInStep σ)) (fun r => ∃ s', r = .yield s') 0 :=
  (Logs.pure _).mono (fun _ same => ⟨s, same⟩) rfl

theorem Logs.thenYield {σ : Type} {m : Emit α} {post : α → Prop} {M : Multiset String}
    (first : Logs m post M) (s : σ) :
    Logs (m >>= fun _ => Pure.pure (ForInStep.yield s)) (fun r => ∃ s', r = .yield s') M :=
  Logs.seq first (fun _ _ => Logs.yield s) (add_zero M)

theorem Logs.forIn {σ : Type} (xs : List β) (s : σ) {f : β → σ → Emit (ForInStep σ)}
    {M : β → Multiset String}
    (step : ∀ x ∈ xs, ∀ s, Logs (f x s) (fun r => ∃ s', r = .yield s') (M x)) :
    Logs (ForIn.forIn xs s f) (fun _ => True) (xs.map M).sum := by
  intro w₀
  -- the record after the items done holds what their steps add
  let inv (done : List β) (_ : σ) (w : LineWriter) : Prop :=
    (w.commentLog : Multiset String) = ↑w₀.commentLog + (done.map M).sum
  refine (Hoare.forIn_prefix xs inv (fun done x rest b whole => ?_) s).mono
    (fun w same => by simp [inv, same]) (fun _ _ logged => ⟨trivial, logged⟩) fun _ failed => failed
  have member : x ∈ xs := by simp [← whole]
  refine Hoare.intro fun w logged => ?_
  refine (step x member b w).mono (fun _ same => same) (fun r w' ⟨yielded, logged'⟩ => ?_)
    fun _ failed => failed
  obtain ⟨b', rfl⟩ := yielded
  refine ⟨b', rfl, ?_⟩
  simp only [inv, List.map_append, List.map_singleton, List.sum_append, List.sum_singleton]
  rw [logged', logged, add_assoc]

end

theorem comments_logs (id depth : Nat) (lines : List String) :
    Logs (comments id depth lines) (fun _ => True) (trimmed lines) := by
  unfold comments
  apply Logs.seq (Logs.forIn lines PUnit.unit _) (fun _ _ => Logs.unit ())
  · rw [trimmed_eq_sum, add_zero]
  · intro line _ _
    apply Logs.seq (Logs.liftExcept _)
    · intro text ok
      rw [commentText_eq_ok ok]
      apply Logs.afterOut LineWriter.newline_commentLog
      exact Logs.seq (Logs.writeComment depth (Text.trimStart line))
        (fun _ _ => Logs.afterOut LineWriter.newline_commentLog (Logs.yield _)) (add_zero _)
    · simp

section

variable (c : Comments) (id : Nat)

theorem lineEnd_logs : Logs (lineEnd c id) (fun _ => True) (trimmed (c.lineEnd id).toList) := by
  unfold lineEnd
  split
  · rename_i none
    rw [none]
    exact Logs.unit false
  · rename_i line some
    rw [some]
    apply Logs.seq (Logs.liftExcept _)
    · intro text ok
      rw [commentText_eq_ok ok]
      exact Logs.afterOut LineWriter.space_commentLog
        (Logs.seq (Logs.writeComment 0 _) (fun _ _ => Logs.unit true) (add_zero _))
    · simp

theorem inlineEnd_logs (frame : Frame) :
    Logs (inlineEnd c id frame) (fun _ => True)
      (trimmed ((c.lineEnd id).toList ++ c.trailing id)) := by
  unfold inlineEnd
  apply Logs.seq (lineEnd_logs c id)
  · intro ended _
    apply Logs.ite
    · intro _
      exact Logs.afterOut LineWriter.newline_commentLog
        (comments_logs id frame.depth (c.trailing id))
    · intro _
      exact comments_logs id frame.depth (c.trailing id)
  · simp

theorem scalar_logs (s : Scalar) (frame : Frame) :
    Logs (scalar c id s frame) (fun _ => True)
      (trimmed ((c.lineEnd id).toList ++ c.trailing id)) := by
  unfold scalar
  apply Logs.seq Logs.get
  · intro writer _
    dsimp only
    split
    · exact Logs.afterOut (by simp) (inlineEnd_logs c id frame)
    · apply Logs.afterOut (by simp)
      apply Logs.seq (lineEnd_logs c id)
      · intro _ _
        exact Logs.afterOut (by simp) (comments_logs id frame.depth (c.trailing id))
      · simp
  · exact zero_add _

theorem blockEnd_logs (depth : Nat) :
    Logs (blockEnd c id depth) (fun _ => True)
      (trimmed ((c.lineEnd id).toList ++ c.trailing id)) := by
  unfold blockEnd
  split
  · rename_i line some
    rw [some]
    exact Logs.seq (comments_logs id depth [line])
      (fun _ _ => comments_logs id depth (c.trailing id)) (by simp)
  · rename_i none
    rw [Option.eq_none_iff_forall_ne_some.mpr none]
    simpa using comments_logs id depth (c.trailing id)

end

end Emit

end AnnotatedYaml
