import Mathlib
import AnnotatedYaml.Proofs.Text.Lines
import AnnotatedYaml.Proofs.Text.Scans

/-! Addressing a source text: positions, byte offsets and slices agree, and every offset is a
character boundary. -/

namespace AnnotatedYaml

namespace Position

theorem le_iff {p q : Position} :
    p ≤ q ↔ p.line < q.line ∨ p.line = q.line ∧ p.column ≤ q.column := by
  show ((compare p.line q.line).then (compare p.column q.column)).isLE = true ↔ _
  rcases Nat.lt_trichotomy p.line q.line with before | same | after
  · rw [Nat.compare_eq_lt.mpr before]
    simp [before]
  · rw [same, Nat.compare_eq_eq.mpr rfl]
    simp [Ordering.isLE_iff_ne_gt, Nat.compare_eq_gt]
  · rw [Nat.compare_eq_gt.mpr after]
    simp
    omega

theorem le_trans {p q r : Position} (pq : p ≤ q) (qr : q ≤ r) : p ≤ r := by
  rw [le_iff] at pq qr ⊢
  omega

theorem eq_of_le_of_le {p q : Position} (le : p ≤ q) (ge : q ≤ p) : p = q := by
  cases p
  cases q
  simp only [le_iff] at le ge
  simp only [Position.mk.injEq]
  omega

end Position

namespace Text

/-! ### Halving -/

/-- `r` is the last index of `[lo, top)` whose value is at most `b`, or `lo` when none is. -/
def IsLastAtMost (f : Nat → Nat) (b lo top r : Nat) : Prop :=
  lo ≤ r ∧ r < top ∧ (r = lo ∨ f r ≤ b) ∧ ∀ k, r < k → k < top → b < f k

section Halving

variable {f : Nat → Nat} {b lo top : Nat}

/-- Halving keeps its low end at the start or at a value at most `b`, and every value from its
high end up to `top` above `b`; each round narrows the range. -/
theorem lastAtMost.go_isLastAtMost (grows : ∀ i j, i ≤ j → j < top → f i ≤ f j) :
    ∀ F low high, lo ≤ low → low < high → high ≤ top → high - low ≤ F →
      (low = lo ∨ f low ≤ b) → (∀ k, high ≤ k → k < top → b < f k) →
      IsLastAtMost f b lo top (lastAtMost.go f b low high F)
  | 0, _, _, _, narrow, _, enough, _, _ => by omega
  | F + 1, low, high, above, narrow, within, enough, atLow, overHigh => by
    rw [lastAtMost.go]
    split
    · exact ⟨above, by omega, atLow, fun k after before => overHigh k (by omega) before⟩
    · dsimp only
      split
      · rename_i fits
        exact go_isLastAtMost grows F _ high (by omega) (by omega) within (by omega) (.inr fits)
          overHigh
      · rename_i exceeds
        refine go_isLastAtMost grows F low _ above (by omega) (by omega) (by omega) atLow ?_
        intro k past before
        by_cases old : k < high
        · exact Nat.lt_of_lt_of_le (Nat.lt_of_not_le exceeds) (grows _ k past before)
        · exact overHigh k (by omega) before

/-- On a range where `f` grows, halving finds the last index whose value is at most `b`. -/
theorem lastAtMost_isLastAtMost (grows : ∀ i j, i ≤ j → j < top → f i ≤ f j) (nonempty : lo < top) :
    IsLastAtMost f b lo top (lastAtMost f b lo top) :=
  lastAtMost.go_isLastAtMost grows (top + 1) lo top le_rfl nonempty le_rfl (by omega) (.inl rfl)
    fun _ after before => absurd before (by omega)

end Halving

/-! ### Bytes of characters -/

theorem byteLength_eq_sum (cs : List Char) : byteLength cs = (cs.map Char.utf8Size).sum := by
  have running : ∀ (n : Nat) (cs : List Char),
      cs.foldl (fun n c => n + c.utf8Size) n = n + (cs.map Char.utf8Size).sum := by
    intro n cs
    induction cs generalizing n with
    | nil => simp
    | cons c cs ih =>
      rw [List.foldl_cons, ih]
      simp [Nat.add_assoc]
  rw [byteLength, running, Nat.zero_add]

@[simp] theorem byteLength_append (xs ys : List Char) :
    byteLength (xs ++ ys) = byteLength xs + byteLength ys := by
  simp [byteLength_eq_sum]

theorem utf8ByteSize_ofList (cs : List Char) : (String.ofList cs).utf8ByteSize = byteLength cs := by
  induction cs with
  | nil => rfl
  | cons c cs ih =>
    rw [← List.singleton_append, String.ofList_append, String.utf8ByteSize_append, ih,
      byteLength_append]
    simp [byteLength_eq_sum, String.utf8ByteSize_singleton]

theorem size_utf8Encode (cs : List Char) : cs.utf8Encode.size = byteLength cs := by
  rw [← String.toByteArray_ofList, String.size_toByteArray, utf8ByteSize_ofList]

theorem byteLength_flatten (ls : List (List Char)) :
    byteLength ls.flatten = (ls.map byteLength).sum := by
  induction ls with
  | nil => rfl
  | cons l ls ih => simp [ih]

/-- The byte offset of the `k`-th character of `text`: the bytes of the characters before it. -/
def charOffset (text : String) (k : Nat) : Nat := byteLength (text.toList.take k)

section CharOffset

variable {text : String}

theorem charOffset_succ {k : Nat} (inside : k < text.toList.length) :
    charOffset text (k + 1) = charOffset text k + (text.toList[k]).utf8Size := by
  rw [charOffset, charOffset, List.take_add_one, List.getElem?_eq_getElem inside, Option.toList_some,
    byteLength_append]
  simp [byteLength_eq_sum]

theorem charOffset_mono {j k : Nat} (le : j ≤ k) : charOffset text j ≤ charOffset text k := by
  rw [charOffset, charOffset, byteLength_eq_sum, byteLength_eq_sum, List.map_take, List.map_take]
  exact List.monotone_sum_take _ le

theorem charOffset_lt {j k : Nat} (lt : j < k) (within : k ≤ text.toList.length) :
    charOffset text j < charOffset text k := by
  induction k, lt using Nat.le_induction with
  | base =>
    rw [charOffset_succ (by omega)]
    have := Char.utf8Size_pos text.toList[j]
    omega
  | succ k _ ih =>
    rw [charOffset_succ (by omega)]
    have := ih (by omega)
    omega

theorem charOffset_lt_iff {j k : Nat} (within : k ≤ text.toList.length) :
    charOffset text j < charOffset text k ↔ j < k := by
  constructor
  · intro lt
    by_contra notLt
    exact Nat.lt_irrefl _ (Nat.lt_of_lt_of_le lt (charOffset_mono (Nat.le_of_not_lt notLt)))
  · exact fun lt => charOffset_lt lt within

theorem charOffset_le_iff {j k : Nat} (within : j ≤ text.toList.length) :
    charOffset text j ≤ charOffset text k ↔ j ≤ k := by
  rw [← Nat.not_lt, charOffset_lt_iff within, Nat.not_lt]

theorem charOffset_length : charOffset text text.toList.length = text.utf8ByteSize := by
  rw [charOffset, List.take_length, ← utf8ByteSize_ofList, String.ofList_toList]

theorem isValid_charOffset (k : Nat) : String.Pos.Raw.IsValid text ⟨charOffset text k⟩ :=
  String.Pos.Raw.isValid_iff_exists_take_toList.mpr ⟨k, (utf8ByteSize_ofList _).symm⟩

theorem exists_charOffset_of_isValid {b : Nat} (valid : String.Pos.Raw.IsValid text ⟨b⟩) :
    ∃ k ≤ text.toList.length, charOffset text k = b := by
  obtain ⟨i, offset⟩ := String.Pos.Raw.isValid_iff_exists_take_toList.mp valid
  change b = _ at offset
  rw [utf8ByteSize_ofList] at offset
  by_cases short : i ≤ text.toList.length
  · exact ⟨i, short, offset.symm⟩
  · refine ⟨text.toList.length, le_rfl, ?_⟩
    rw [charOffset, List.take_length, offset, List.take_of_length_le (by omega)]

end CharOffset

theorem splitLines_ne_nil : ∀ (cs cur : List Char), ∀ l ∈ splitLines cs cur, l ≠ []
  | [], cur => by
    by_cases empty : cur.isEmpty
    · simp [splitLines, empty]
    · simp only [splitLines, empty, Bool.false_eq_true, if_false, List.mem_singleton]
      rintro l rfl
      simpa using empty
  | c :: rest, cur => by
    by_cases br : c = '\n'
    · simp only [splitLines, br, beq_self_eq_true, if_true, List.mem_cons]
      rintro l (rfl | later)
      · simp
      · exact splitLines_ne_nil rest [] l later
    · simp only [splitLines, beq_iff_eq, br, if_false]
      exact splitLines_ne_nil rest (c :: cur)

namespace SourceText

variable {text : String}

/-! ### Where the lines start -/

theorem lineList_ne_nil {l : List Char} (member : l ∈ lineList text) : l ≠ [] :=
  splitLines_ne_nil _ [] l member

theorem lineCount_ofString : (ofString text).lineCount = (lineList text).length := by
  rw [lineCount, lines_ofString, List.size_toArray]

theorem lineStart_succ {i : Nat} (inside : i < (lineList text).length) :
    (((lineList text).map List.length).take (i + 1)).sum =
      (((lineList text).map List.length).take i).sum + (ofString text).lineLength i := by
  rw [List.sum_take_succ _ _ (by simpa using inside), lineLength_ofString inside]
  simp

variable (text) in
theorem lineStart_mono {i j : Nat} (le : i ≤ j) :
    (((lineList text).map List.length).take i).sum ≤
      (((lineList text).map List.length).take j).sum :=
  List.monotone_sum_take _ le

variable (text) in
theorem lineStart_length :
    (((lineList text).map List.length).take (lineList text).length).sum = text.toList.length := by
  rw [List.take_of_length_le (by simp), ← List.length_flatten, flatten_lineList]

variable (text) in
theorem lineStart_le_length (i : Nat) :
    (((lineList text).map List.length).take i).sum ≤ text.toList.length := by
  have whole : ((lineList text).map List.length).take (i + (lineList text).length) =
      ((lineList text).map List.length).take (lineList text).length := by
    rw [List.take_of_length_le (by simp), List.take_of_length_le (by simp)]
  have := lineStart_mono text (Nat.le_add_right i (lineList text).length)
  rwa [whole, lineStart_length] at this

theorem exists_line_of_lt {k : Nat} (within : k < text.toList.length) :
    ∃ l < (lineList text).length, (((lineList text).map List.length).take l).sum ≤ k ∧
      k < (((lineList text).map List.length).take (l + 1)).sum := by
  have reached : ∃ m, k < (((lineList text).map List.length).take m).sum :=
    ⟨_, lineStart_length text ▸ within⟩
  have past := Nat.find_spec reached
  have atMost : Nat.find reached ≤ (lineList text).length :=
    Nat.find_min' reached (lineStart_length text ▸ within)
  have positive : 0 < Nat.find reached := by
    by_contra zero
    rw [Nat.eq_zero_of_not_pos zero] at past
    simp at past
  have before := Nat.find_min reached (Nat.sub_lt positive Nat.one_pos)
  refine ⟨Nat.find reached - 1, by omega, Nat.le_of_not_lt before, ?_⟩
  rwa [Nat.sub_add_cancel positive]

/-! ### The tables of offsets -/

theorem offsets_toList :
    (ofString text).offsets.toList = (List.range (text.toList.length + 1)).map (charOffset text) := by
  have sums := foldl_sums Char.utf8Size text.toList #[] 0
  simp only [ofString, Array.toList_push, List.foldl_toArray, sums.1, sums.2]
  rw [List.range_succ]
  simp [charOffset, byteLength_eq_sum, List.map_take]

theorem offsets_getD {k : Nat} (within : k ≤ text.toList.length) (d : Nat) :
    (ofString text).offsets.getD k d = charOffset text k := by
  rw [Array.getD_eq_getD_getElem?, ← Array.getElem?_toList, offsets_toList]
  simp [Nat.lt_succ_of_le within]

theorem starts_toList : (ofString text).starts.toList =
    (List.range (lineList text).length).map
      fun i => (((lineList text).map byteLength).take i).sum := by
  have sums := (foldl_sums byteLength (lineList text) #[] 0).1
  simp only [ofString]
  simpa using sums

theorem starts_getD {i : Nat} (inside : i < (lineList text).length) (d : Nat) :
    (ofString text).starts.getD i d =
      charOffset text (((lineList text).map List.length).take i).sum := by
  rw [Array.getD_eq_getD_getElem?, ← Array.getElem?_toList, starts_toList]
  simp only [List.getElem?_map, List.getElem?_range inside, Option.map_some, Option.getD_some]
  rw [charOffset, ← flatten_lineList text, List.take_sum_flatten, byteLength_flatten,
    List.map_take]

theorem starts_size : (ofString text).starts.size = (lineList text).length := by
  rw [starts_size_ofString, lines_ofString, List.size_toArray]

/-! ### From positions to offsets -/

theorem index_of_lt {p : Position} (inside : p.line < (lineList text).length) :
    (ofString text).index p = (((lineList text).map List.length).take p.line).sum +
      min p.column ((ofString text).lineLength p.line) := by
  rw [index, lines_ofString, List.size_toArray, if_pos inside, lineStarts_getD text 0 inside]

theorem index_of_le {p : Position} (past : (lineList text).length ≤ p.line) :
    (ofString text).index p = text.toList.length := by
  rw [index, lines_ofString, List.size_toArray, if_neg (by omega), chars_ofString,
    List.size_toArray]

theorem index_le_lineStart {p : Position} (inside : p.line < (lineList text).length) :
    (ofString text).index p ≤ (((lineList text).map List.length).take (p.line + 1)).sum := by
  rw [index_of_lt inside, lineStart_succ inside]
  omega

theorem index_le (p : Position) : (ofString text).index p ≤ text.toList.length := by
  by_cases inside : p.line < (lineList text).length
  · have next := lineStart_mono text (Nat.succ_le_of_lt inside)
    rw [lineStart_length] at next
    exact Nat.le_trans (index_le_lineStart inside) next
  · rw [index_of_le (by omega)]

theorem index_mono {p q : Position} (le : p ≤ q) : (ofString text).index p ≤ (ofString text).index q := by
  by_cases inside : q.line < (lineList text).length
  · rcases Position.le_iff.mp le with before | ⟨same, narrower⟩
    · have next := lineStart_mono text (by omega : p.line + 1 ≤ q.line)
      have := index_le_lineStart (by omega : p.line < (lineList text).length)
      rw [index_of_lt inside]
      omega
    · rw [index_of_lt (by omega), index_of_lt inside, same]
      omega
  · rw [index_of_le (p := q) (by omega)]
    exact index_le p

theorem index_endPos : (ofString text).index (ofString text).endPos = text.toList.length := by
  unfold endPos
  rw [lines_ofString, List.back?_toArray]
  cases last : (lineList text).getLast? with
  | none => exact index_of_le (by simp [List.getLast?_eq_none_iff.mp last])
  | some line =>
    dsimp only
    split
    · exact index_of_le (by simp)
    · -- a last line without a break ends the text
      have nonempty : 0 < (lineList text).length := by
        rw [List.getLast?_eq_getElem?] at last
        by_contra empty
        simp_all
      have inside : (lineList text).length - 1 < (lineList text).length := by omega
      have whole := lineStart_succ inside
      rw [Nat.sub_add_cancel nonempty, lineStart_length] at whole
      have length : line.length = (ofString text).lineLength ((lineList text).length - 1) := by
        have found := List.getLast?_eq_some_getLast (List.ne_nil_of_length_pos nonempty)
        rw [last, Option.some_inj] at found
        rw [lineLength_ofString inside, ← List.getLast_eq_getElem (List.ne_nil_of_length_pos nonempty),
          found]
      rw [index_of_lt (by simpa using inside)]
      simp only [List.size_toArray, length, Nat.min_self]
      omega

theorem byteOffset_eq (p : Position) :
    (ofString text).byteOffset p = charOffset text ((ofString text).index p) := by
  rw [byteOffset, offsets_getD (index_le p)]

/-! ### From offsets to positions -/

theorem starts_grow : ∀ i j, i ≤ j → j < (ofString text).starts.size →
    (ofString text).starts.getD i 0 ≤ (ofString text).starts.getD j 0 := by
  intro i j le inside
  rw [starts_size] at inside
  rw [starts_getD (by omega), starts_getD inside]
  exact charOffset_mono (lineStart_mono text le)

/-- The line search answers the last line that starts at or before the offset. -/
theorem lineOfByte_isLastAtMost (nonempty : 0 < (lineList text).length) (b : Nat) :
    IsLastAtMost ((ofString text).starts.getD · 0) b 0 (lineList text).length
      ((ofString text).lineOfByte b) := by
  rw [← starts_size]
  exact lastAtMost_isLastAtMost starts_grow (by rw [starts_size]; exact nonempty)

theorem lineOfByte_charOffset {l k : Nat} (inside : l < (lineList text).length)
    (start : (((lineList text).map List.length).take l).sum ≤ k)
    (before : k < (((lineList text).map List.length).take (l + 1)).sum) :
    (ofString text).lineOfByte (charOffset text k) = l := by
  have within := Nat.le_of_lt (Nat.lt_of_lt_of_le before (lineStart_le_length text (l + 1)))
  obtain ⟨-, below, atMost, above⟩ :=
    lineOfByte_isLastAtMost (by omega : 0 < (lineList text).length) (charOffset text k)
  generalize (ofString text).lineOfByte (charOffset text k) = r at below atMost above
  dsimp only at atMost above
  -- the line found starts at or before the character, and no later line does
  have notLater : r ≤ l := by
    by_contra later
    have past := lineStart_mono text (by omega : l + 1 ≤ r)
    rcases atMost with first | fits
    · omega
    · rw [starts_getD below, charOffset_le_iff (lineStart_le_length text r)] at fits
      omega
  have notEarlier : l ≤ r := by
    by_contra earlier
    have exceeds := above l (by omega) inside
    rw [starts_getD inside, charOffset_lt_iff (lineStart_le_length text l)] at exceeds
    omega
  omega

theorem lineOfByte_size (nonempty : 0 < (lineList text).length) :
    (ofString text).lineOfByte text.utf8ByteSize = (lineList text).length - 1 := by
  obtain ⟨-, below, -, above⟩ := lineOfByte_isLastAtMost nonempty text.utf8ByteSize
  dsimp only at above
  generalize (ofString text).lineOfByte text.utf8ByteSize = r at below above
  -- every line starts at or before the end, so no line follows the one found
  by_contra notLast
  have exceeds := above (r + 1) (by omega) (by omega)
  rw [starts_getD (by omega), ← charOffset_length,
    charOffset_lt_iff (lineStart_le_length text (r + 1))] at exceeds
  have := lineStart_le_length text (r + 1)
  omega

theorem lastAtMost_offsets {first k : Nat} (start : first ≤ k) (within : k ≤ text.toList.length) :
    lastAtMost (fun j => (ofString text).offsets.getD j 0 + 1) (charOffset text k) first
      ((ofString text).chars.size + 1) = if first < k then k - 1 else first := by
  have grows : ∀ i j, i ≤ j → j < (ofString text).chars.size + 1 →
      (ofString text).offsets.getD i 0 + 1 ≤ (ofString text).offsets.getD j 0 + 1 := by
    intro i j le inside
    rw [chars_ofString, List.size_toArray] at inside
    rw [offsets_getD (by omega), offsets_getD (by omega)]
    have : charOffset text i ≤ charOffset text j := charOffset_mono le
    omega
  obtain ⟨above, below, atMost, after⟩ := lastAtMost_isLastAtMost (b := charOffset text k) grows
    (by rw [chars_ofString, List.size_toArray]; omega : first < (ofString text).chars.size + 1)
  generalize lastAtMost _ _ _ _ = r at above below atMost after
  rw [chars_ofString, List.size_toArray] at below after
  dsimp only at atMost after
  -- the character found is the first one, or one before the offset
  have early : r = first ∨ r < k := by
    rcases atMost with same | fits
    · exact .inl same
    · rw [offsets_getD (by omega)] at fits
      exact .inr ((charOffset_lt_iff within).mp (by omega))
  -- and nothing between it and the offset is left out
  have late : ¬r + 1 < k := by
    intro gap
    have exceeds := after (r + 1) (by omega) (by omega)
    rw [offsets_getD (by omega)] at exceeds
    have := charOffset_lt gap within
    omega
  split <;> omega

theorem lineStarts_getElem? {l : Nat} (inside : l < (lineList text).length) :
    (ofString text).lineStarts[l]? = some (((lineList text).map List.length).take l).sum := by
  rw [← Array.getElem?_toList, lineStarts_toList]
  simp [inside]

theorem positionAt_charOffset {l k : Nat} (inside : l < (lineList text).length)
    (start : (((lineList text).map List.length).take l).sum ≤ k)
    (before : k < (((lineList text).map List.length).take (l + 1)).sum) :
    (ofString text).positionAt (charOffset text k) =
      ⟨l, k - (((lineList text).map List.length).take l).sum⟩ := by
  have short : k < text.toList.length := Nat.lt_of_lt_of_le before (lineStart_le_length text _)
  have notEnd : charOffset text k < text.utf8ByteSize := by
    rw [← charOffset_length]
    exact charOffset_lt short le_rfl
  have size : (ofString text).size = text.utf8ByteSize := rfl
  unfold positionAt
  dsimp only
  rw [size, Nat.min_eq_left notEnd.le, lineOfByte_charOffset inside start before,
    lineStarts_getElem? inside]
  dsimp only
  have notLast : ¬(l + 1 == (ofString text).lines.size &&
      charOffset text k == text.utf8ByteSize) = true := by
    simp [Nat.ne_of_lt notEnd]
  rw [if_neg notLast, lastAtMost_offsets start short.le]
  simp only [Position.mk.injEq, true_and]
  -- the search stops one before the character, or on it when it starts the line
  by_cases later : (((lineList text).map List.length).take l).sum < k
  · rw [if_pos later, offsets_getD (by omega), if_pos (charOffset_lt (by omega) short.le)]
    omega
  · have first : k = (((lineList text).map List.length).take l).sum := by omega
    rw [if_neg later, offsets_getD (by omega), first, if_neg (Nat.lt_irrefl _)]

theorem positionAt_size : (ofString text).positionAt text.utf8ByteSize = (ofString text).endPos := by
  have size : (ofString text).size = text.utf8ByteSize := rfl
  unfold positionAt
  dsimp only
  rw [size, Nat.min_self]
  by_cases nonempty : 0 < (lineList text).length
  · rw [lineOfByte_size nonempty, lineStarts_getElem? (by omega)]
    dsimp only
    rw [if_pos (by simp [lines_ofString, Nat.sub_add_cancel nonempty])]
  · -- a text without lines has no line start to search from
    have missing : (ofString text).lineStarts[(ofString text).lineOfByte text.utf8ByteSize]? =
        none := by
      rw [← Array.getElem?_toList, lineStarts_toList]
      simp [Nat.eq_zero_of_not_pos nonempty]
    rw [missing]

/-- Every character boundary turns into a position that gives it back. -/
theorem byteOffset_positionAt {b : Nat} (valid : String.Pos.Raw.IsValid text ⟨b⟩) :
    (ofString text).byteOffset ((ofString text).positionAt b) = b := by
  obtain ⟨k, within, rfl⟩ := exists_charOffset_of_isValid valid
  rcases Nat.lt_or_ge k text.toList.length with short | whole
  · obtain ⟨l, inside, start, before⟩ := exists_line_of_lt short
    have next := lineStart_succ inside
    rw [positionAt_charOffset inside start before, byteOffset_eq, index_of_lt inside]
    congr 1
    dsimp only
    omega
  · rw [Nat.le_antisymm within whole, charOffset_length, positionAt_size, byteOffset_eq,
      index_endPos, charOffset_length]

/-- A position on a character comes back from its offset. -/
theorem positionAt_byteOffset {p : Position} (inside : p.line < (ofString text).lineCount)
    (within : p.column < (ofString text).lineLength p.line) :
    (ofString text).positionAt ((ofString text).byteOffset p) = p := by
  rw [lineCount_ofString] at inside
  have next := lineStart_succ inside
  rw [byteOffset_eq, index_of_lt inside, Nat.min_eq_left within.le,
    positionAt_charOffset inside (by omega) (by omega), Nat.add_sub_cancel_left]

theorem positionAt_byteOffset_endPos :
    (ofString text).positionAt ((ofString text).byteOffset (ofString text).endPos) =
      (ofString text).endPos := by
  rw [byteOffset_eq, index_endPos, charOffset_length, positionAt_size]

/-! ### Slices -/

theorem slice_eq {p q : Position} (le : p ≤ q) :
    (ofString text).slice p q =
      (text.toList.drop ((ofString text).index p)).take
        ((ofString text).index q - (ofString text).index p) := by
  unfold slice
  split
  · rename_i back
    rw [Position.eq_of_le_of_le le back]
    simp
  · rw [Array.toList_extract, chars_ofString, List.extract_eq_take_drop]

/-- A slice holds the bytes of the text between the offsets of its ends. -/
theorem toByteArray_slice {p q : Position} (le : p ≤ q) :
    (String.ofList ((ofString text).slice p q)).toByteArray =
      text.toByteArray.extract ((ofString text).byteOffset p) ((ofString text).byteOffset q) := by
  have ordered : (ofString text).index p ≤ (ofString text).index q := index_mono le
  rw [slice_eq le, byteOffset_eq, byteOffset_eq, String.toByteArray_ofList,
    ← String.utf8Encode_toList]
  generalize (ofString text).index p = i at ordered ⊢
  generalize (ofString text).index q = j at ordered ⊢
  unfold charOffset
  generalize text.toList = cs
  -- the text is what stands before the slice, the slice, and what follows it
  have upto : cs.take j = cs.take i ++ (cs.drop i).take (j - i) := by
    rw [← List.take_add, Nat.add_sub_cancel' ordered]
  have whole : cs = cs.take i ++ ((cs.drop i).take (j - i) ++ cs.drop j) := by
    rw [← List.append_assoc, ← upto, List.take_append_drop]
  rw [upto, byteLength_append]
  conv_rhs => arg 1; rw [whole]
  rw [List.utf8Encode_append, List.utf8Encode_append, ← size_utf8Encode, ← size_utf8Encode]
  rw [ByteArray.extract_append, ByteArray.extract_eq_empty_iff.mpr (Nat.min_le_right _ _),
    ByteArray.empty_append, Nat.sub_self, Nat.add_sub_cancel_left,
    ByteArray.extract_append_eq_left rfl]

/-- The slices of two ranges that meet join into the slice of both. -/
theorem slice_append_slice {p q r : Position} (pq : p ≤ q) (qr : q ≤ r) :
    (ofString text).slice p q ++ (ofString text).slice q r = (ofString text).slice p r := by
  have first : (ofString text).index p ≤ (ofString text).index q := index_mono pq
  have second : (ofString text).index q ≤ (ofString text).index r := index_mono qr
  rw [slice_eq pq, slice_eq qr, slice_eq (Position.le_trans pq qr)]
  have split : (ofString text).index r - (ofString text).index p =
      ((ofString text).index q - (ofString text).index p) +
        ((ofString text).index r - (ofString text).index q) := by
    omega
  rw [split, List.take_add, List.drop_drop, Nat.add_sub_cancel' first]

/-! ### Character boundaries -/

theorem isBoundary_iff {b : Nat} :
    (ofString text).isBoundary b = true ↔ ∃ k ≤ text.toList.length, charOffset text k = b := by
  rw [isBoundary, Array.contains_iff_mem, Array.mem_def, offsets_toList]
  simp

theorem isBoundary_charOffset {k : Nat} (within : k ≤ text.toList.length) :
    (ofString text).isBoundary (charOffset text k) = true :=
  isBoundary_iff.mpr ⟨k, within, rfl⟩

theorem isBoundary_zero : (ofString text).isBoundary 0 = true :=
  isBoundary_charOffset (k := 0) (Nat.zero_le _)

theorem isBoundary_byteOffset (p : Position) :
    (ofString text).isBoundary ((ofString text).byteOffset p) = true := by
  rw [byteOffset_eq]
  exact isBoundary_charOffset (index_le p)

theorem isBoundary_of_starts {i m : Nat} (found : (ofString text).starts[i]? = some m) :
    (ofString text).isBoundary m = true := by
  have inside : i < (lineList text).length := by
    rw [← starts_size]
    exact (Array.getElem?_eq_some_iff.mp found).1
  have start := starts_getD inside 0
  rw [Array.getD_eq_getD_getElem?, found, Option.getD_some] at start
  rw [start]
  exact isBoundary_charOffset (lineStart_le_length text i)

theorem findMarkerLine.go_found {s : SourceText} {lo m : Nat} {marker : List Char} :
    ∀ fuel i, findMarkerLine.go s lo marker i fuel = some m →
      lo ≤ m ∧ ∃ j : Nat, s.starts[j]? = some m
  | 0, i, found => by cases found
  | fuel + 1, i, found => by
    rw [findMarkerLine.go] at found
    split at found
    · rename_i start atLine
      split at found
      · rename_i chosen
        cases found
        exact ⟨(by simpa using chosen : lo ≤ m ∧ _).1, i, atLine⟩
      · exact findMarkerLine.go_found fuel (i + 1) found
    · cases found

theorem findMarkerLine_boundary {lo m : Nat} {marker : List Char}
    (found : (ofString text).findMarkerLine lo marker = some m) :
    lo ≤ m ∧ (ofString text).isBoundary m = true := by
  obtain ⟨after, j, start⟩ := findMarkerLine.go_found _ _ found
  exact ⟨after, isBoundary_of_starts start⟩

/-- Addressing a text read from a string is consistent. The offset of every position is a
character boundary within the text, and it grows with the position; every boundary turns into a
position that gives it back; a position on a character, and the end, come back from their
offsets; and a slice holds the bytes of the text between the offsets of its ends, so that the
slices of two ranges that meet join into the slice of both. -/
theorem offsets_positions_and_slices_agree (text : String) :
    (∀ p, String.Pos.Raw.IsValid text ⟨(ofString text).byteOffset p⟩ ∧
      (ofString text).byteOffset p ≤ text.utf8ByteSize) ∧
    (∀ p q : Position, p ≤ q → (ofString text).byteOffset p ≤ (ofString text).byteOffset q) ∧
    (∀ b, String.Pos.Raw.IsValid text ⟨b⟩ →
      (ofString text).byteOffset ((ofString text).positionAt b) = b) ∧
    (∀ p : Position, p.line < (ofString text).lineCount →
      p.column < (ofString text).lineLength p.line →
      (ofString text).positionAt ((ofString text).byteOffset p) = p) ∧
    (ofString text).positionAt ((ofString text).byteOffset (ofString text).endPos) =
      (ofString text).endPos ∧
    (∀ p q : Position, p ≤ q → (String.ofList ((ofString text).slice p q)).toByteArray =
      text.toByteArray.extract ((ofString text).byteOffset p) ((ofString text).byteOffset q)) ∧
    (∀ p q r : Position, p ≤ q → q ≤ r →
      (ofString text).slice p q ++ (ofString text).slice q r = (ofString text).slice p r) := by
  refine ⟨fun p => ⟨?boundary, ?bounded⟩, fun p q le => ?grows, fun _ => byteOffset_positionAt,
    fun _ => positionAt_byteOffset, positionAt_byteOffset_endPos, fun _ _ => toByteArray_slice,
    fun _ _ _ => slice_append_slice⟩
  case boundary =>
    rw [byteOffset_eq]
    exact isValid_charOffset _
  case bounded =>
    rw [byteOffset_eq, ← charOffset_length]
    exact charOffset_mono (index_le p)
  case grows =>
    rw [byteOffset_eq, byteOffset_eq]
    exact charOffset_mono (index_mono le)

end SourceText

end Text

end AnnotatedYaml
