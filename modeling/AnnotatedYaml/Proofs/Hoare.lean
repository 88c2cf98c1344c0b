/-! Hoare triples for state computations that may fail: the writer and the tree builder run in such
a monad, and the comment analyzer, which cannot fail, embeds in one. -/

namespace AnnotatedYaml

section

variable {σ ε α β γ : Type}

def Outcome (Q : α → σ → Prop) (E : ε → Prop) : Except ε (α × σ) → Prop
  | .ok (a, s) => Q a s
  | .error e => E e

/-- Run from a state that satisfies `P`, `m` ends with a result and a state that satisfy `Q`,
or fails with an error that satisfies `E`. -/
def Hoare (P : σ → Prop) (m : StateT σ (Except ε) α) (Q : α → σ → Prop) (E : ε → Prop) : Prop :=
  ∀ s, P s → Outcome Q E (m.run s)

/-- A computation of the state monad, as one that never fails. -/
def ofStateM (m : StateM σ α) : StateT σ (Except ε) α := fun s => .ok (m.run s)

namespace Hoare

variable {P P' : σ → Prop} {Q Q' : α → σ → Prop} {R : β → σ → Prop} {E E' : ε → Prop}
  {m m' : StateT σ (Except ε) α}

theorem ok_of (h : Hoare P m Q E) {s s' : σ} {a : α} (holds : P s)
    (ran : m.run s = .ok (a, s')) : Q a s' := by
  have ends := h s holds
  rw [ran] at ends
  exact ends

theorem error_of (h : Hoare P m Q E) {s : σ} {e : ε} (holds : P s) (ran : m.run s = .error e) :
    E e := by
  have ends := h s holds
  rw [ran] at ends
  exact ends

theorem of_runs (each : ∀ s, P s →
    (∀ a s', m.run s = .ok (a, s') → Q a s') ∧ ∀ e, m.run s = .error e → E e) :
    Hoare P m Q E := by
  intro s holds
  obtain ⟨ok, error⟩ := each s holds
  cases ran : m.run s with
  | ok r => exact ok r.1 r.2 ran
  | error e => exact error e ran

theorem mono (h : Hoare P m Q E) (pre : ∀ s, P' s → P s) (post : ∀ a s, Q a s → Q' a s)
    (err : ∀ e, E e → E' e) : Hoare P' m Q' E' := by
  refine of_runs fun s holds => ⟨fun a s' ran => ?_, fun e ran => ?_⟩
  · exact post a s' (h.ok_of (pre s holds) ran)
  · exact err e (h.error_of (pre s holds) ran)

theorem assume {c : Prop} (rest : c → Hoare P m Q E) : Hoare (fun s => c ∧ P s) m Q E :=
  fun s holds => rest holds.1 s holds.2

theorem intro (each : ∀ s₀, P s₀ → Hoare (· = s₀) m Q E) : Hoare P m Q E :=
  fun s holds => each s holds s rfl

theorem pure (a : α) (holds : ∀ s, P s → Q a s) :
    Hoare P (Pure.pure a : StateT σ (Except ε) α) Q E :=
  holds

theorem bind {f : α → StateT σ (Except ε) β} (first : Hoare P m Q E)
    (rest : ∀ a, Hoare (Q a) (f a) R E) : Hoare P (m >>= f) R E := by
  intro s holds
  have ends := first s holds
  rw [StateT.run_bind]
  cases ran : m.run s with
  | ok r =>
    rw [ran] at ends
    exact rest r.1 r.2 ends
  | error e =>
    rw [ran] at ends
    exact ends

theorem bind_run {s : σ} {f : α → StateT σ (Except ε) β} (first : Hoare (· = s) m Q E)
    (rest : ∀ a s', m.run s = .ok (a, s') → Q a s' → Hoare (· = s') (f a) R E) :
    Hoare (· = s) (m >>= f) R E := by
  intro s' same
  subst s'
  rw [StateT.run_bind]
  cases ran : m.run s with
  | ok r => exact rest r.1 r.2 ran (first.ok_of rfl ran) r.2 rfl
  | error e => exact first.error_of rfl ran

theorem get_bind {s : σ} {f : σ → StateT σ (Except ε) α} (rest : Hoare (· = s) (f s) Q E) :
    Hoare (· = s) (MonadState.get >>= f) Q E := by
  intro s' same
  subst same
  exact rest s' rfl

theorem get {Q : σ → σ → Prop} (holds : ∀ s, P s → Q s s) :
    Hoare P (MonadState.get : StateT σ (Except ε) σ) Q E :=
  holds

theorem set (s' : σ) {Q : PUnit → σ → Prop} (holds : ∀ s, P s → Q ⟨⟩ s') :
    Hoare P (MonadStateOf.set s' : StateT σ (Except ε) PUnit) Q E :=
  holds

theorem modify (g : σ → σ) {Q : PUnit → σ → Prop} (holds : ∀ s, P s → Q ⟨⟩ (g s)) :
    Hoare P (modify g : StateT σ (Except ε) PUnit) Q E :=
  holds

theorem throw {e : ε} (fails : E e) :
    Hoare P (MonadExcept.throw e : StateT σ (Except ε) α) Q E :=
  fun _ _ => fails

theorem ite {c : Prop} [Decidable c] (yes : c → Hoare P m Q E) (no : ¬c → Hoare P m' Q E) :
    Hoare P (if c then m else m') Q E := by
  by_cases holds : c
  · simpa only [if_pos holds] using yes holds
  · simpa only [if_neg holds] using no holds

theorem forIn (I : γ → σ → Prop) {f : β → γ → StateT σ (Except ε) (ForInStep γ)} :
    ∀ (xs : List β), (∀ x ∈ xs, ∀ b, Hoare (I b) (f x b) (fun r => I r.value) E) →
      ∀ b, Hoare (I b) (ForIn.forIn xs b f) I E
  | [], _, b => by
    rw [List.forIn_nil]
    exact pure b fun _ holds => holds
  | x :: xs, step, b => by
    rw [List.forIn_cons]
    refine bind (step x List.mem_cons_self b) fun r => ?_
    cases r with
    | done b' => exact pure b' fun _ holds => holds
    | yield b' => exact forIn I xs (fun y member => step y (List.mem_cons_of_mem x member)) b'

/-- A loop keeps `inv`, read at the items done so far, when each step keeps it and goes on. -/
theorem forIn_prefix (xs : List β) (inv : List β → γ → σ → Prop)
    {f : β → γ → StateT σ (Except ε) (ForInStep γ)}
    (step : ∀ done x rest b, done ++ x :: rest = xs → Hoare (inv done b) (f x b)
      (fun r s => ∃ b', r = .yield b' ∧ inv (done ++ [x]) b' s) E) (b : γ) :
    Hoare (inv [] b) (ForIn.forIn xs b f) (inv xs) E := by
  -- the loop over the items `ys` still to do, once the items `done` are
  suffices rest : ∀ ys done b, done ++ ys = xs →
      Hoare (inv done b) (ForIn.forIn ys b f) (inv xs) E from rest xs [] b rfl
  intro ys
  induction ys with
  | nil =>
    intro done b whole
    rw [List.append_nil] at whole
    subst whole
    rw [List.forIn_nil]
    exact pure b fun _ holds => holds
  | cons x ys ih =>
    intro done b whole
    rw [List.forIn_cons]
    refine bind (step done x ys b whole) fun r => intro fun s₀ ⟨b', yielded, holds⟩ => ?_
    subst yielded
    exact fun s same => ih (done ++ [x]) b' (by simp [← whole]) s (same ▸ holds)

end Hoare

section StateM

variable {m : StateM σ α} {P : σ → Prop} {Q : α → σ → Prop} {E : ε → Prop}

@[simp] theorem ofStateM_run (m : StateM σ α) (s : σ) :
    (ofStateM (ε := ε) m).run s = .ok (m.run s) := rfl

theorem ofStateM_bind (m : StateM σ α) (f : α → StateM σ β) :
    ofStateM (ε := ε) (m >>= f) = ofStateM m >>= fun a => ofStateM (f a) := rfl

theorem ofStateM_pure (a : α) : ofStateM (ε := ε) (Pure.pure a : StateM σ α) = Pure.pure a := rfl

theorem ofStateM_get : ofStateM (ε := ε) (MonadState.get : StateM σ σ) = MonadState.get := rfl

theorem ofStateM_set (s : σ) :
    ofStateM (ε := ε) (MonadStateOf.set s : StateM σ PUnit) = MonadStateOf.set s := rfl

theorem ofStateM_modify (g : σ → σ) :
    ofStateM (ε := ε) (modify g : StateM σ PUnit) = modify g := rfl

theorem ofStateM_forIn (f : β → γ → StateM σ (ForInStep γ)) :
    ∀ (xs : List β) (b : γ),
      ofStateM (ε := ε) (ForIn.forIn xs b f) = ForIn.forIn xs b fun x b => ofStateM (f x b)
  | [], b => rfl
  | x :: xs, b => by
    rw [List.forIn_cons, List.forIn_cons, ofStateM_bind]
    congr 1
    funext r
    cases r with
    | done b' => rfl
    | yield b' => exact ofStateM_forIn f xs b'

/-- A computation that cannot fail satisfies a triple when each of its runs does. -/
theorem hoare_ofStateM_iff : Hoare P (ofStateM m) Q E ↔ ∀ s, P s → Q (m.run s).1 (m.run s).2 :=
  Iff.rfl

end StateM

end

end AnnotatedYaml
