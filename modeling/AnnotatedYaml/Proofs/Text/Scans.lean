import AnnotatedYaml.Text.Source

/-! The scans of a source text run on fuel, and settle once the fuel covers what is left to read. -/

namespace AnnotatedYaml

/-- Fuel `n` is enough for `g`: every larger fuel gives what `n` gives. -/
def FuelSettles {α : Type} (g : Nat → α) (n : Nat) : Prop := ∀ F, n ≤ F → g F = g n

namespace FuelSettles

variable {α : Type} {g : Nat → α} {n : Nat}

theorem of_succ (step : ∀ F, n ≤ F → g (F + 1) = g F) : FuelSettles g n := by
  intro F enough
  obtain ⟨k, rfl⟩ := Nat.exists_eq_add_of_le enough
  induction k with
  | zero => rfl
  | succ k ih =>
    rw [← Nat.add_assoc, step (n + k) (Nat.le_add_right n k), ih (Nat.le_add_right n k)]

theorem of_eq (same : ∀ F G, n ≤ F → n ≤ G → g F = g G) : FuelSettles g n :=
  fun F enough => same F n enough (Nat.le_refl n)

theorem eq (settles : FuelSettles g n) {F G : Nat} (enoughF : n ≤ F) (enoughG : n ≤ G) :
    g F = g G := by
  rw [settles F enoughF, settles G enoughG]

theorem mono (settles : FuelSettles g n) {m : Nat} (le : n ≤ m) : FuelSettles g m :=
  fun _ enough => settles.eq (Nat.le_trans le enough) le

end FuelSettles

namespace Text

theorem lastAtMost.go_succ (f : Nat → Nat) (b : Nat) :
    ∀ F lo hi, hi - lo ≤ F → lastAtMost.go f b lo hi (F + 1) = lastAtMost.go f b lo hi F := by
  intro F
  induction F with
  | zero =>
    intro lo hi short
    rw [lastAtMost.go.eq_2, if_pos (by omega), lastAtMost.go.eq_1]
  | succ F ih =>
    intro lo hi enough
    conv => lhs; rw [lastAtMost.go]
    conv => rhs; rw [lastAtMost.go]
    split
    · rfl
    · -- either half is narrower by one at least
      dsimp only
      split
      · exact ih _ _ (by omega)
      · exact ih _ _ (by omega)

theorem lastAtMost.go_settles (f : Nat → Nat) (b lo hi : Nat) :
    FuelSettles (lastAtMost.go f b lo hi) (hi - lo) :=
  FuelSettles.of_succ fun F enough => go_succ f b F lo hi enough

theorem size_foldl_push {β : Type} (w : β → Nat) (xs : List β) (acc : Array Nat × Nat) :
    (xs.foldl (fun (acc : Array Nat × Nat) x => (acc.1.push acc.2, acc.2 + w x)) acc).1.size =
      acc.1.size + xs.length := by
  induction xs generalizing acc with
  | nil => rfl
  | cons x xs ih =>
    rw [List.foldl_cons, ih]
    simp only [Array.size_push, List.length_cons]
    omega

namespace SourceText

theorem starts_size_ofString (text : String) :
    (ofString text).starts.size = (ofString text).lines.size := by
  unfold ofString
  dsimp only
  rw [size_foldl_push byteLength]
  simp

variable (s : SourceText)

theorem lastBefore.go_succ (p : Position) (c : Char) (ok : List Char → Bool) :
    ∀ F l, l + 1 ≤ F → lastBefore.go s p c ok l (F + 1) = lastBefore.go s p c ok l F := by
  intro F
  induction F with
  | zero => intro l enough; omega
  | succ F ih =>
    intro l enough
    conv => lhs; rw [lastBefore.go]
    conv => rhs; rw [lastBefore.go]
    split
    · rfl
    · split
      · rfl
      · rename_i nonzero
        have positive : l ≠ 0 := by simpa using nonzero
        exact ih _ (by omega)

theorem lastBefore.go_settles (p : Position) (c : Char) (ok : List Char → Bool) (l : Nat) :
    FuelSettles (lastBefore.go s p c ok l) (l + 1) :=
  FuelSettles.of_succ fun F enough => go_succ s p c ok F l enough

theorem takeWhileFrom.go_succ (keep : Char → Bool) (stop : Nat) :
    ∀ F i acc, stop - i + 1 ≤ F →
      takeWhileFrom.go s keep stop i acc (F + 1) = takeWhileFrom.go s keep stop i acc F := by
  intro F
  induction F with
  | zero => intro i acc enough; omega
  | succ F ih =>
    intro i acc enough
    conv => lhs; rw [takeWhileFrom.go]
    conv => rhs; rw [takeWhileFrom.go]
    split
    · split
      · rename_i within
        exact ih _ _ (by simp only [Bool.and_eq_true, decide_eq_true_eq] at within; omega)
      · rfl
    · rfl

theorem takeWhileFrom.go_settles (keep : Char → Bool) (stop i : Nat) (acc : Array Char) :
    FuelSettles (takeWhileFrom.go s keep stop i acc) (stop - i + 1) :=
  FuelSettles.of_succ fun F enough => go_succ s keep stop F i acc enough

theorem findMarkerLine.go_succ (lo : Nat) (marker : List Char) :
    ∀ F i, s.starts.size - i + 1 ≤ F →
      findMarkerLine.go s lo marker i (F + 1) = findMarkerLine.go s lo marker i F := by
  intro F
  induction F with
  | zero => intro i enough; omega
  | succ F ih =>
    intro i enough
    conv => lhs; rw [findMarkerLine.go]
    conv => rhs; rw [findMarkerLine.go]
    split
    · rename_i start found
      have inside : i < s.starts.size := (Array.getElem?_eq_some_iff.mp found).1
      split
      · rfl
      · exact ih _ (by omega)
    · rfl

theorem findMarkerLine.go_settles (lo : Nat) (marker : List Char) (i : Nat) :
    FuelSettles (findMarkerLine.go s lo marker i) (s.starts.size - i + 1) :=
  FuelSettles.of_succ fun F enough => go_succ s lo marker F i enough

end SourceText

end Text

end AnnotatedYaml
