import Mathlib
import AnnotatedYaml.Text.Source

/-! The lines of a source text give the text back and hold a line break only at their end. -/

namespace AnnotatedYaml.Text

/-- Every carriage return of `cs` is followed by a line feed. -/
def NoLoneCr (cs : List Char) : Prop :=
  ∀ pre post, cs = pre ++ '\r' :: post → post.head? = some '\n'

theorem splitLines_flatten : ∀ (cs cur : List Char),
    (splitLines cs cur).flatten = cur.reverse ++ cs
  | [], cur => by
    by_cases empty : cur.isEmpty
    · simp [splitLines, List.isEmpty_iff.mp empty]
    · simp [splitLines, empty]
  | c :: rest, cur => by
    by_cases br : c = '\n'
    · simp [splitLines, br, splitLines_flatten rest []]
    · simp [splitLines, br, splitLines_flatten rest (c :: cur)]

theorem newline_not_mem_dropLast : ∀ (cs cur : List Char), '\n' ∉ cur →
    ∀ l ∈ splitLines cs cur, '\n' ∉ l.dropLast
  | [], cur, clean => by
    by_cases empty : cur.isEmpty
    · simp [splitLines, empty]
    · simp only [splitLines, empty, Bool.false_eq_true, if_false, List.mem_singleton]
      rintro l rfl inside
      exact clean (List.mem_reverse.mp (List.dropLast_subset _ inside))
  | c :: rest, cur, clean => by
    by_cases br : c = '\n'
    · simp only [splitLines, br, beq_self_eq_true, if_true, List.mem_cons]
      rintro l (rfl | later)
      · rw [List.reverse_cons, List.dropLast_concat]
        simpa using clean
      · exact newline_not_mem_dropLast rest [] (by simp) l later
    · simp only [splitLines, beq_iff_eq, br, if_false]
      exact newline_not_mem_dropLast rest (c :: cur) (by simp [clean, Ne.symm br])

theorem foldl_sums {β : Type} (w : β → Nat) (xs : List β) (arr : Array Nat) (n : Nat) :
    (xs.foldl (fun (acc : Array Nat × Nat) x => (acc.1.push acc.2, acc.2 + w x)) (arr, n)).1.toList =
      arr.toList ++ (List.range xs.length).map (fun i => n + ((xs.map w).take i).sum) ∧
    (xs.foldl (fun (acc : Array Nat × Nat) x => (acc.1.push acc.2, acc.2 + w x)) (arr, n)).2 =
      n + (xs.map w).sum := by
  induction xs generalizing arr n with
  | nil => simp
  | cons x xs ih =>
    rw [List.foldl_cons, (ih _ _).1, (ih _ _).2, List.length_cons, List.range_succ_eq_map]
    simp [Nat.add_assoc]

theorem newline_not_mem_take {l : List Char} (k : Nat) (clean : '\n' ∉ l.dropLast)
    (short : l.getLast? = some '\n' → k < l.length) : '\n' ∉ l.take k := by
  by_cases before : k < l.length
  · have inDropLast : l.take k ⊆ l.dropLast := by
      rw [List.dropLast_eq_take]
      exact List.take_subset_take_left l (by omega)
    exact fun inside => clean (inDropLast inside)
  · rw [List.take_of_length_le (by omega)]
    exact fun inside => clean (List.mem_dropLast_of_mem_of_ne_getLast? inside
      fun last => before (short last.symm))

theorem take_drop_append {l r : List Char} {a b : Nat} (within : b ≤ l.length) :
    (List.drop a (l ++ r)).take (b - a) = (l.take b).drop a := by
  rw [List.drop_append, List.take_append_of_le_length (by simp; omega), List.drop_take]

section LoneCr

variable {text ys : List Char}

theorem cr_not_mem_dropLast (lone : NoLoneCr text) (piece : ys <:+: text) (noLf : '\n' ∉ ys) :
    '\r' ∉ ys.dropLast := by
  intro inside
  have notEmpty : ys ≠ [] := by
    rintro rfl
    simp at inside
  obtain ⟨p, q, split⟩ := List.append_of_mem inside
  obtain ⟨A, B, whole⟩ := piece
  obtain ⟨z, joined⟩ : ∃ z, ys = p ++ '\r' :: (q ++ [z]) :=
    ⟨ys.getLast notEmpty, by
      conv_lhs => rw [← List.dropLast_append_getLast notEmpty, split]
      simp⟩
  subst joined
  have next := lone (A ++ p) (q ++ [z] ++ B) (by rw [← whole]; simp)
  rw [List.append_assoc, List.head?_append] at next
  -- the character after the carriage return is still inside the piece
  have feed : '\n' ∈ q ++ [z] := by
    cases q <;> simp at next <;> simp [next]
  exact noLf (by simp [feed])

theorem cr_not_mem (lone : NoLoneCr text) (piece : ys <:+: text) (noLf : '\n' ∉ ys)
    (last : ys.getLast? ≠ some '\r') : '\r' ∉ ys := fun inside =>
  cr_not_mem_dropLast lone piece noLf
    (List.mem_dropLast_of_mem_of_ne_getLast? inside fun same => last same.symm)

end LoneCr

namespace SourceText

theorem contentLength_le (s : SourceText) (i : Nat) : s.contentLength i ≤ s.lineLength i := by
  unfold contentLength
  dsimp only
  split <;> split <;> omega

variable (text : String)

abbrev lineList : List (List Char) := splitLines text.toList []

theorem flatten_lineList : (lineList text).flatten = text.toList := by
  simp [lineList, splitLines_flatten]

theorem lines_ofString : (ofString text).lines = (lineList text).toArray := rfl

theorem chars_ofString : (ofString text).chars = text.toList.toArray := rfl

theorem lineStarts_toList : (ofString text).lineStarts.toList =
    (List.range (lineList text).length).map
      fun i => (((lineList text).map List.length).take i).sum :=
  (foldl_sums List.length (lineList text) #[] 0).1.trans (by simp)

theorem lineStarts_getD {i : Nat} (d : Nat) (inside : i < (lineList text).length) :
    (ofString text).lineStarts.getD i d = (((lineList text).map List.length).take i).sum := by
  rw [Array.getD_eq_getD_getElem?, ← Array.getElem?_toList, lineStarts_toList]
  simp [inside]

variable {text}

theorem lineLength_ofString {i : Nat} (inside : i < (lineList text).length) :
    (ofString text).lineLength i = ((lineList text)[i]).length := by
  have next : (ofString text).lineStarts.getD (i + 1) (ofString text).chars.size =
      (((lineList text).map List.length).take (i + 1)).sum := by
    by_cases last : i + 1 < (lineList text).length
    · exact lineStarts_getD text _ last
    · have whole : i + 1 = (lineList text).length := by omega
      have size : (ofString text).chars.size = ((lineList text).map List.length).sum := by
        rw [chars_ofString, List.size_toArray, ← List.length_flatten, flatten_lineList]
      have past : (ofString text).lineStarts.size = (lineList text).length := by
        rw [← Array.length_toList, lineStarts_toList, List.length_map, List.length_range]
      rw [Array.getD_eq_getD_getElem?, Array.getElem?_eq_none (by omega), Option.getD_none, size,
        whole, ← List.length_map List.length, List.take_length]
  unfold lineLength
  rw [lines_ofString, List.size_toArray, if_pos inside, next, lineStarts_getD text _ inside,
    List.sum_take_succ _ _ (by simpa using inside)]
  simp

theorem drop_lineStart {i : Nat} (inside : i < (lineList text).length) :
    text.toList.drop (((lineList text).map List.length).take i).sum =
      (lineList text)[i] ++ ((lineList text).drop (i + 1)).flatten := by
  rw [← flatten_lineList text, List.drop_sum_flatten, List.drop_eq_getElem_cons inside,
    List.flatten_cons]

theorem getElem?_chars {i j : Nat} (inside : i < (lineList text).length)
    (within : j < ((lineList text)[i]).length) :
    (ofString text).chars[(((lineList text).map List.length).take i).sum + j]? =
      (lineList text)[i][j]? := by
  rw [chars_ofString, List.getElem?_toArray, ← List.getElem?_drop, drop_lineStart inside,
    List.getElem?_append_left within]

theorem contentLength_lt {i : Nat} (inside : i < (lineList text).length)
    (broken : ((lineList text)[i]).getLast? = some '\n') :
    (ofString text).contentLength i < ((lineList text)[i]).length := by
  have notEmpty : 0 < ((lineList text)[i]).length := by
    cases h : (lineList text)[i] with
    | nil => simp [h] at broken
    | cons _ _ => simp
  have last : (ofString text).chars[(((lineList text).map List.length).take i).sum +
      ((lineList text)[i]).length - 1]? = some '\n' := by
    rw [Nat.add_sub_assoc notEmpty, getElem?_chars inside (by omega), ← broken,
      List.getLast?_eq_getElem?]
  unfold contentLength
  simp only [lineLength_ofString inside, lineStarts_getD text 0 inside, last, notEmpty,
    decide_true, beq_self_eq_true, Bool.and_self, ↓reduceIte]
  split_ifs <;> omega

variable (text)

theorem extract_infix (a b : Nat) :
    ((ofString text).chars.extract a b).toList <:+: text.toList := by
  rw [Array.toList_extract, chars_ofString, List.extract_eq_take_drop]
  exact (List.take_prefix _ _).isInfix.trans (List.drop_suffix _ _).isInfix

theorem slice_infix (lo hi : Position) : (ofString text).slice lo hi <:+: text.toList := by
  unfold slice
  split
  · exact List.nil_infix
  · exact extract_infix text _ _

theorem restOfLine_infix (p : Position) : (ofString text).restOfLine p <:+: text.toList := by
  unfold restOfLine
  split
  · exact extract_infix text _ _
  · exact List.nil_infix

variable {text}

theorem restOfLine_eq {p : Position} (inside : p.line < (lineList text).length) :
    (ofString text).restOfLine p =
      (((lineList text)[p.line]).take ((ofString text).contentLength p.line)).drop p.column := by
  have within : (ofString text).contentLength p.line ≤ ((lineList text)[p.line]).length :=
    lineLength_ofString inside ▸ contentLength_le _ _
  unfold restOfLine
  rw [lines_ofString, List.size_toArray, if_pos inside]
  dsimp only
  rw [lineStarts_getD text 0 inside, Array.toList_extract, chars_ofString,
    List.extract_eq_take_drop, Nat.add_sub_add_left, ← List.drop_drop, drop_lineStart inside,
    take_drop_append within]

theorem newline_not_mem_restOfLine (p : Position) : '\n' ∉ (ofString text).restOfLine p := by
  by_cases inside : p.line < (lineList text).length
  · rw [restOfLine_eq inside]
    intro found
    refine newline_not_mem_take _ ?clean (contentLength_lt inside) (List.mem_of_mem_drop found)
    exact newline_not_mem_dropLast _ [] (by simp) _ (List.getElem_mem inside)
  · unfold restOfLine
    rw [lines_ofString, List.size_toArray, if_neg inside]
    simp

theorem head?_restOfLine {p : Position} (before : p.column < (ofString text).contentLength p.line) :
    ((ofString text).restOfLine p).head? = (ofString text).charAt p := by
  by_cases inside : p.line < (lineList text).length
  · have lengths := lineLength_ofString inside
    have bounded := contentLength_le (ofString text) p.line
    rw [restOfLine_eq inside, List.head?_drop, List.getElem?_take, if_pos before]
    unfold charAt
    rw [if_pos (by omega), lineStarts_getD text 0 inside, getElem?_chars inside (by omega)]
  · have empty : (ofString text).lineLength p.line = 0 := by
      unfold lineLength
      rw [lines_ofString, List.size_toArray, if_neg inside]
    have := contentLength_le (ofString text) p.line
    omega

end SourceText

end AnnotatedYaml.Text
