import AnnotatedYaml.Proofs.Scalar.InlineReading
import AnnotatedYaml.Layout.Writer

/-! Reading a block scalar back, by the rules of YAML 1.2. -/

namespace AnnotatedYaml

namespace Yaml

/-- How the final line breaks are kept: `-` strips them, no indicator keeps one, `+` keeps
them all. -/
inductive Chomping where
  | strip
  | clip
  | keep
  deriving Repr, DecidableEq

/-- `c-b-block-header`: the style, the indentation indicator and the chomping indicator. -/
structure Header where
  folded : Bool
  indentation : Option Nat
  chomping : Chomping
  deriving Repr, DecidableEq

def chompingOf : Char → Option Chomping
  | '-' => some .strip
  | '+' => some .keep
  | _ => none

/-- `c-indentation-indicator`: a digit from 1 to 9. -/
def indentationOf (c : Char) : Option Nat :=
  if '1' ≤ c ∧ c ≤ '9' then some (c.toNat - '0'.toNat) else none

/-- The indicators after the style: each at most once, in either order. -/
def readIndicators : List Char → Option (Option Nat × Chomping)
  | [] => some (none, .clip)
  | [c] =>
    match indentationOf c, chompingOf c with
    | some d, _ => some (some d, .clip)
    | none, some t => some (none, t)
    | none, none => none
  | [c, c'] =>
    match indentationOf c, chompingOf c', chompingOf c, indentationOf c' with
    | some d, some t, _, _ => some (some d, t)
    | _, _, some t, some d => some (some d, t)
    | _, _, _, _ => none
  | _ => none

/-- The header line, holding nothing after its indicators. -/
def readHeader : List Char → Option Header
  | '|' :: rest => (readIndicators rest).map fun i => ⟨false, i.1, i.2⟩
  | '>' :: rest => (readIndicators rest).map fun i => ⟨true, i.1, i.2⟩
  | _ => none

inductive Line where
  | empty
  | text (chars : List Char)
  deriving Repr, DecidableEq

def Line.isText : Line → Bool
  | .text _ => true
  | .empty => false

def isBlank (l : List Char) : Bool := l.all (· == ' ')

/-- A line under the indentation `n`: empty when it holds no more than `n` spaces
(`l-empty`), otherwise `n` spaces and a text of `nb-char`s. -/
def classify (n : Nat) (l : List Char) : Option Line :=
  if isBlank l && l.length ≤ n then some .empty
  else if (List.replicate n ' ').isPrefixOf l && (l.drop n).all isNbChar then
    some (.text (l.drop n))
  else none

/-- The detected indentation: the spaces before the first line holding more than spaces, or,
when there is none, the length of the longest line. -/
def detect (lines : List (List Char)) : Nat :=
  match lines.find? (fun l => !isBlank l) with
  | some l => (l.takeWhile (· == ' ')).length
  | none => (lines.map List.length).foldr max 0

/-- `s-nb-folded-text`: a text line that starts with neither a space nor a tab. -/
def isFoldedText : List Char → Bool
  | c :: _ => !isWhite c
  | [] => false

/-- What stands between two text lines with `gap` empty lines between them. Each empty line is
a line break, and so is the break that ends the first line, except between two lines of folded
text in a folded scalar: there that break is dropped (`b-l-trimmed`), or, with no empty line
between, read as a space (`b-as-space`). -/
def separator (folded : Bool) (prev t : List Char) (gap : Nat) : List Char :=
  if folded && isFoldedText prev && isFoldedText t then
    if gap = 0 then [' '] else List.replicate gap '\n'
  else List.replicate (gap + 1) '\n'

/-- The content from the first text line to the last, `prev` being the text line read last
and `gap` the number of empty lines read since. Empty lines after the last text line add
nothing. -/
def readRegion (folded : Bool) : Option (List Char) → Nat → List Line → List Char
  | _, _, [] => []
  | prev, gap, .empty :: rest => readRegion folded prev (gap + 1) rest
  | none, gap, .text t :: rest => List.replicate gap '\n' ++ t ++ readRegion folded (some t) 0 rest
  | some p, gap, .text t :: rest =>
    separator folded p t gap ++ t ++ readRegion folded (some t) 0 rest

/-- The number of empty lines after the last text line. -/
def trailing (ls : List Line) : Nat := (ls.reverse.takeWhile (· == .empty)).length

/-- The value of a body: its content, then the line break ending the last text line unless it
is stripped, then, when they are kept, one line break for each empty line after it. -/
def blockValue (folded : Bool) (t : Chomping) (ls : List Line) : List Char :=
  if ls.any Line.isText then
    readRegion folded none 0 ls ++ (if t = .strip then [] else ['\n']) ++
      (if t = .keep then List.replicate (trailing ls) '\n' else [])
  else if t = .keep then List.replicate ls.length '\n' else []

/-- The indentation of the body under a parent indented by `p`. -/
def indentation (p : Nat) (h : Header) (lines : List (List Char)) : Nat :=
  match h.indentation with
  | some d => p + d
  | none => max (p + 1) (detect lines)

/-- Reads the body lines under the header `h` and a parent indented by `p`. When the
indentation is detected, no empty line before the first text line may be longer. -/
def readBody (p : Nat) (h : Header) (lines : List (List Char)) : Option (List Char) :=
  let n := indentation p h lines
  if h.indentation.isNone && !(lines.takeWhile isBlank).all (·.length ≤ n) then none
  else (lines.mapM (classify n)).map (blockValue h.folded h.chomping)

/-- Reads a block scalar from its header to the line break ending its last line, under a
parent indented by `p`. Nothing may follow the scalar. -/
def readBlock (p : Nat) (text : List Char) : Option (List Char) :=
  match text.splitOn '\n' with
  | [] => none
  | header :: rest =>
    if rest.getLast? = some [] then
      (readHeader header).bind fun h => readBody p h rest.dropLast
    else none

end Yaml

open Yaml

/-- The body lines as the writer lays them out at indentation `n`: an empty line stays
empty, any other is indented. -/
def layOut (n : Nat) (lines : List String) : List (List Char) :=
  lines.map fun l => if l.isEmpty then [] else List.replicate n ' ' ++ l.toList

/-- A block scalar as written: the header, then each body line on a line of its own, the last
one ended by a line break. -/
def blockText (n : Nat) (header : String) (lines : List String) : List Char :=
  header.toList ++ (layOut n lines).flatMap ('\n' :: ·) ++ ['\n']

/-! ### Splitting the text at its line breaks -/

theorem mem_of_mem_splitOn {x : Char} : ∀ {xs w : List Char}, w ∈ xs.splitOn x →
    ∀ c ∈ w, c ∈ xs ∧ c ≠ x
  | [], w, hw => by
    simp only [List.splitOn_nil, List.mem_singleton] at hw
    subst hw
    simp
  | y :: ys, w, hw => by
    have later : ∀ {w}, w ∈ ys.splitOn x → ∀ c ∈ w, c ∈ y :: ys ∧ c ≠ x := fun hw c hc =>
      (mem_of_mem_splitOn hw c hc).imp_left (List.mem_cons_of_mem _)
    rw [List.splitOn_cons_eq_if_modifyHead] at hw
    split at hw
    · rcases List.mem_cons.mp hw with rfl | hw
      · simp
      · exact later hw
    · rename_i other
      obtain ⟨r, rs, split⟩ := List.exists_cons_of_ne_nil (List.splitOn_ne_nil x ys)
      rw [split, List.modifyHead_cons] at hw
      rcases List.mem_cons.mp hw with rfl | hw
      · intro c hc
        rcases List.mem_cons.mp hc with rfl | hc
        · exact ⟨List.mem_cons_self .., by simpa using other⟩
        · exact later (split ▸ List.mem_cons_self ..) c hc
      · exact later (split ▸ List.mem_cons_of_mem _ hw)

theorem intercalate_append_nil (x : Char) :
    ∀ {ls : List (List Char)}, ls ≠ [] → [x].intercalate (ls ++ [[]]) = [x].intercalate ls ++ [x]
  | [l], _ => by simp
  | l :: l' :: ls, _ => by
    rw [List.cons_append, List.intercalate_cons_of_ne_nil (by simp),
      intercalate_append_nil x (List.cons_ne_nil l' ls), List.intercalate_cons_cons]
    simp

theorem splitOn_getLast_ne_nil {x : Char} {xs : List Char} (nonempty : xs ≠ [])
    (last : xs.getLast? ≠ some x) : (xs.splitOn x).getLast? ≠ some [] := by
  intro h
  have whole : [x].intercalate (xs.splitOn x) = xs := List.intercalate_splitOn x
  obtain ⟨init, pieces⟩ := List.getLast?_eq_some_iff.mp h
  rw [pieces] at whole
  by_cases empty : init = []
  · rw [empty] at whole
    exact nonempty (by simpa using whole.symm)
  · rw [intercalate_append_nil x empty] at whole
    exact last (by rw [← whole]; simp)

theorem flatMap_eq_intercalate (x : Char) :
    ∀ (h : List Char) (ls : List (List Char)),
      h ++ ls.flatMap (x :: ·) ++ [x] = [x].intercalate (h :: ls ++ [[]])
  | h, [] => by simp
  | h, l :: ls => by
    rw [List.cons_append, List.cons_append, List.intercalate_cons_cons, ← List.cons_append,
      ← flatMap_eq_intercalate x l ls]
    simp

theorem layOut_no_break {n : Nat} {lines : List String}
    (bodyLines : ∀ l ∈ lines, '\n' ∉ l.toList) : ∀ l ∈ layOut n lines, '\n' ∉ l := by
  simp only [layOut, List.mem_map]
  rintro _ ⟨l, member, rfl⟩
  split
  · simp
  · simpa using bodyLines l member

/-- Splitting the written text at its line breaks gives back the header and the lines. -/
theorem readBlock_blockText (p n : Nat) {header : String} {lines : List String}
    (headerLine : '\n' ∉ header.toList) (bodyLines : ∀ l ∈ lines, '\n' ∉ l.toList) :
    readBlock p (blockText n header lines) =
      (readHeader header.toList).bind fun h => readBody p h (layOut n lines) := by
  have pieces : ∀ l ∈ header.toList :: layOut n lines ++ [[]], '\n' ∉ l := by
    simp only [List.cons_append, List.mem_cons, List.mem_append]
    rintro l (rfl | written | rfl | nil)
    · exact headerLine
    · exact layOut_no_break bodyLines l written
    · simp
    · simp at nil
  rw [blockText, flatMap_eq_intercalate, readBlock, List.splitOn_intercalate _ pieces (by simp)]
  simp

/-! ### The header -/

theorem toString_digit {k : Nat} (pos : 0 < k) (digit : k ≤ 9) :
    (toString k).toList = [Nat.digitChar k] := by
  have all : ∀ k < 10, 0 < k → (toString k).toList = [Nat.digitChar k] := by decide +kernel
  exact all k (by omega) pos

/-- The chomping indicator the writer writes for each chomping. -/
def chompingText : Chomping → List Char
  | .strip => ['-']
  | .clip => []
  | .keep => ['+']

theorem readIndicators_written {k : Nat} (pos : 0 < k) (digit : k ≤ 9) (given : Bool)
    (t : Chomping) :
    readIndicators ((if given then [Nat.digitChar k] else []) ++ chompingText t) =
      some (if given then some k else none, t) := by
  have digits : ∀ k < 10, 0 < k → indentationOf (Nat.digitChar k) = some k := by decide +kernel
  have signs : indentationOf '-' = none ∧ indentationOf '+' = none := by decide +kernel
  cases given <;> cases t <;>
    simp [readIndicators, chompingText, chompingOf, digits k (by omega) pos, signs]

/-! ### The body lines -/

/-- A body line as the reader classifies it, once the indentation is taken off. -/
def lineOf (l : String) : Line := if l.isEmpty then .empty else .text l.toList

theorem lineOf_blank {l : String} (empty : l.isEmpty = true) : lineOf l = .empty := by
  simp [lineOf, empty]

theorem lineOf_text {l : String} (text : l.isEmpty = false) : lineOf l = .text l.toList := by
  simp [lineOf, text]

theorem classify_indented {n : Nat} {t : List Char} (nonempty : t ≠ [])
    (chars : ∀ c ∈ t, isNbChar c = true) : classify n (List.replicate n ' ' ++ t) = some (.text t) := by
  have long : ¬n + t.length ≤ n := by
    have := List.length_pos_iff.mpr nonempty
    omega
  simp [classify, long, List.isPrefixOf_iff_prefix]
  exact chars

theorem mapM_classify_layOut (n : Nat) {lines : List String}
    (chars : ∀ l ∈ lines, ∀ c ∈ l.toList, isNbChar c = true) :
    (layOut n lines).mapM (classify n) = some (lines.map lineOf) := by
  induction lines with
  | nil => rfl
  | cons l lines ih =>
    have rest := ih fun l' member => chars l' (List.mem_cons_of_mem _ member)
    have first : classify n (if l.isEmpty then [] else List.replicate n ' ' ++ l.toList) =
        some (lineOf l) := by
      by_cases empty : l.isEmpty
      · simp [empty, lineOf, classify, isBlank]
      · simp only [empty, lineOf, Bool.false_eq_true, if_false]
        exact classify_indented (by simpa using empty) (chars l (by simp))
    simp only [layOut] at rest
    simp only [layOut, List.map_cons, List.mapM_cons]
    rw [first, rest]
    rfl

theorem layOut_cons_empty (n : Nat) {l : String} (lines : List String) (empty : l.isEmpty = true) :
    layOut n (l :: lines) = [] :: layOut n lines := by
  simp only [layOut, List.map_cons]
  rw [if_pos empty]

theorem layOut_cons_text (n : Nat) {l : String} (lines : List String) (text : l.isEmpty = false) :
    layOut n (l :: lines) = (List.replicate n ' ' ++ l.toList) :: layOut n lines := by
  simp only [layOut, List.map_cons]
  rw [if_neg (by simp [text])]

theorem find_layOut (n : Nat) {l : String} :
    ∀ {lines : List String}, lines.find? (fun l => !l.isEmpty) = some l →
      l.toList.head? ≠ some ' ' →
      (layOut n lines).find? (fun l => !isBlank l) = some (List.replicate n ' ' ++ l.toList) ∧
        ∀ x ∈ (layOut n lines).takeWhile isBlank, x = []
  | l' :: lines, first, unspaced => by
    cases empty : l'.isEmpty
    · simp only [List.find?_cons, empty, Bool.not_false, Option.some.injEq] at first
      subst first
      have textual : isBlank (List.replicate n ' ' ++ l'.toList) = false := by
        cases chars : l'.toList with
        | nil => simp_all
        | cons c cs =>
          have space : c ≠ ' ' := by simpa [chars] using unspaced
          simp [isBlank, space]
      rw [layOut_cons_text n lines empty]
      simp [textual]
    · simp only [List.find?_cons, empty, Bool.not_true] at first
      obtain ⟨found, blank⟩ := find_layOut n first unspaced
      rw [layOut_cons_empty n lines empty]
      refine ⟨by rw [List.find?_cons_of_neg (by simp [isBlank])]; exact found, ?_⟩
      simp only [List.takeWhile_cons, isBlank, List.all_nil, if_true, List.mem_cons]
      rintro x (rfl | member)
      · rfl
      · exact blank x member

theorem layOut_all_empty (n : Nat) :
    ∀ {lines : List String}, lines.find? (fun l => !l.isEmpty) = none →
      layOut n lines = List.replicate lines.length []
  | [], _ => rfl
  | l :: lines, allEmpty => by
    cases empty : l.isEmpty
    · simp [empty] at allEmpty
    · simp only [List.find?_cons, empty, Bool.not_true] at allEmpty
      rw [layOut_cons_empty n lines empty, layOut_all_empty n allEmpty]
      rfl

theorem takeWhile_spaces (n : Nat) {t : List Char} (unspaced : t.head? ≠ some ' ') :
    (List.replicate n ' ' ++ t).takeWhile (· == ' ') = List.replicate n ' ' := by
  induction n with
  | zero =>
    cases t with
    | nil => rfl
    | cons c t =>
      have space : c ≠ ' ' := by simpa using unspaced
      simp [space]
  | succ n ih => simp [List.replicate_succ, ih]

/-- Under the header the writer writes, the reader takes the indentation off each line the
writer laid out. The digit gives the indentation; the writer leaves it out only when the first
line that is not empty starts with no space, where the reader detects it, or when every line
is empty, where any indentation reads them alike. -/
theorem readBody_layOut (p : Nat) {k : Nat} (pos : 0 < k) (folded : Bool) (t : Chomping)
    {lines : List String} (given : Bool)
    (unspaced : given = false → ∀ l, lines.find? (fun l => !l.isEmpty) = some l →
      l.toList.head? ≠ some ' ')
    (chars : ∀ l ∈ lines, ∀ c ∈ l.toList, isNbChar c = true) :
    readBody p ⟨folded, if given then some k else none, t⟩ (layOut (p + k) lines) =
      some (blockValue folded t (lines.map lineOf)) := by
  cases given
  · cases first : lines.find? (fun l => !l.isEmpty) with
    | some l =>
      have spaced := unspaced rfl l first
      obtain ⟨found, blank⟩ := find_layOut (p + k) first spaced
      have detected : indentation p ⟨folded, none, t⟩ (layOut (p + k) lines) = p + k := by
        simp only [indentation, detect, found, takeWhile_spaces _ spaced, List.length_replicate]
        omega
      have short : ((layOut (p + k) lines).takeWhile isBlank).all (·.length ≤ p + k) := by
        simp only [List.all_eq_true, decide_eq_true_eq]
        intro x member
        simp [blank x member]
      simp [readBody, detected, short, mapM_classify_layOut _ chars]
    | none =>
      -- every line is empty, so every indentation reads them alike
      have classified : ∀ n, (List.replicate lines.length []).mapM (classify n) =
          some (lines.map lineOf) := fun n => by
        rw [← layOut_all_empty n first, mapM_classify_layOut n chars]
      rw [layOut_all_empty (p + k) first]
      simp [readBody, classified]
  · simp [readBody, indentation, mapM_classify_layOut _ chars]

/-! ### The content -/

theorem readRegion_empties (folded : Bool) (prev : Option (List Char)) :
    ∀ e gap : Nat, readRegion folded prev gap (List.replicate e .empty) = []
  | 0, _ => by simp [readRegion]
  | e + 1, gap => by simp [List.replicate_succ, readRegion, readRegion_empties folded prev e]

theorem readRegion_append_empties (folded : Bool) (e : Nat) :
    ∀ (prev : Option (List Char)) (gap : Nat) (ls : List Line),
      readRegion folded prev gap (ls ++ List.replicate e .empty) = readRegion folded prev gap ls
  | prev, gap, [] => by simp [readRegion_empties, readRegion]
  | prev, gap, .empty :: ls => by
    simp [readRegion, readRegion_append_empties folded e prev (gap + 1) ls]
  | none, gap, .text t :: ls => by
    simp [readRegion, readRegion_append_empties folded e (some t) 0 ls]
  | some q, gap, .text t :: ls => by
    simp [readRegion, readRegion_append_empties folded e (some t) 0 ls]

theorem readRegion_literal : ∀ (prev : Option (List Char)) (gap : Nat) (L : List String),
    L ≠ [] → L.getLast? ≠ some "" →
      readRegion false prev gap (L.map lineOf) =
        List.replicate (gap + (if prev.isSome then 1 else 0)) '\n' ++
          ['\n'].intercalate (L.map String.toList)
  | prev, gap, [l], _, last => by
    have text : l.isEmpty = false := by simpa using last
    cases prev <;> simp [lineOf_text text, readRegion, separator]
  | prev, gap, l :: l' :: L, _, last => by
    have lastRest : (l' :: L).getLast? ≠ some "" := by
      simpa [List.getLast?_cons_cons] using last
    cases empty : l.isEmpty
    · -- a text line, then a line break before the rest
      have rest := readRegion_literal (some l.toList) 0 (l' :: L) (List.cons_ne_nil _ _) lastRest
      simp only [List.map_cons] at rest
      cases prev <;> simp [lineOf_text empty, readRegion, separator, rest]
    · -- an empty line adds one line break
      have rest := readRegion_literal prev (gap + 1) (l' :: L) (List.cons_ne_nil _ _) lastRest
      simp only [List.map_cons] at rest
      have nil : l.toList = [] := by simpa using empty
      simp only [List.map_cons, lineOf_blank empty, readRegion, rest, nil,
        List.intercalate_cons_cons, List.nil_append]
      rw [Nat.add_right_comm, List.replicate_succ', List.append_assoc]

/-- Whether the writer puts an empty line between the text line `prev` and the lines `L`: the
line and the next one that is not empty are both folded text. -/
def foldsAfter (prev : Option (List Char)) (L : List String) : Bool :=
  (prev.map isFoldedText).getD false &&
    ((L.find? fun l => !l.isEmpty).map Encoded.isFoldingLine).getD false

theorem isFoldingLine_eq (l : String) : Encoded.isFoldingLine l = isFoldedText l.toList := by
  unfold Encoded.isFoldingLine
  cases l.toList <;> simp [isFoldedText, isWhite, bne]

theorem unfold_cons (l : String) (L : List String) :
    Encoded.unfold (l :: L) =
      l :: (if foldsAfter (some l.toList) L then "" :: Encoded.unfold L else Encoded.unfold L) := by
  simp only [Encoded.unfold, foldsAfter, Option.map_some, Option.getD_some, isFoldingLine_eq]
  split <;> simp_all

theorem unfold_getLast? : ∀ L : List String, (Encoded.unfold L).getLast? = L.getLast?
  | [] => rfl
  | [l] => by simp [Encoded.unfold]
  | l :: l' :: L => by
    have rest := unfold_getLast? (l' :: L)
    rw [unfold_cons]
    split <;> simp [List.getLast?_cons, rest]

theorem mem_unfold : ∀ {L : List String} {x : String}, x ∈ Encoded.unfold L → x ∈ L ∨ x = ""
  | [], _, member => by simp [Encoded.unfold] at member
  | l :: L, x, member => by
    rw [unfold_cons] at member
    have later : x ∈ Encoded.unfold L → x ∈ l :: L ∨ x = "" := fun h =>
      (mem_unfold h).imp_left (List.mem_cons_of_mem _)
    split at member <;> simp only [List.mem_cons] at member
    · rcases member with rfl | rfl | member
      · simp
      · simp
      · exact later member
    · rcases member with rfl | member
      · simp
      · exact later member

theorem separator_folded (q t : List Char) (gap : Nat) :
    separator true q t (gap + (isFoldedText q && isFoldedText t).toNat) = separator false q t gap := by
  unfold separator
  cases isFoldedText q <;> cases isFoldedText t <;> simp

theorem readRegion_unfold : ∀ (prev : Option (List Char)) (gap : Nat) (L : List String),
    readRegion true prev (gap + (foldsAfter prev L).toNat) ((Encoded.unfold L).map lineOf) =
      readRegion false prev gap (L.map lineOf)
  | prev, gap, [] => by simp [foldsAfter, Encoded.unfold, readRegion]
  | prev, gap, l :: L => by
    cases empty : l.isEmpty
    · -- a text line, after which the writer may have added an empty line
      have next := readRegion_unfold (some l.toList) 0 L
      have tail : readRegion true (some l.toList) 0
          ((if foldsAfter (some l.toList) L then "" :: Encoded.unfold L
            else Encoded.unfold L).map lineOf) =
          readRegion false (some l.toList) 0 (L.map lineOf) := by
        cases folds : foldsAfter (some l.toList) L <;> simp [folds, readRegion, lineOf] at next ⊢
          <;> exact next
      have first : foldsAfter prev (l :: L) = ((prev.map isFoldedText).getD false &&
          isFoldedText l.toList) := by
        simp [foldsAfter, empty, isFoldingLine_eq]
      rw [unfold_cons, first, List.map_cons, List.map_cons]
      cases prev with
      | none => simp [lineOf, empty, readRegion, tail]
      | some q =>
        simp only [lineOf, empty, Bool.false_eq_true, if_false, readRegion, Option.map_some,
          Option.getD_some, separator_folded, tail]
    · -- an empty line: the writer adds nothing after it
      have rest := readRegion_unfold prev (gap + 1) L
      have skip : foldsAfter prev (l :: L) = foldsAfter prev L := by simp [foldsAfter, empty]
      have plain : foldsAfter (some l.toList) L = false := by
        have nil : l.toList = [] := by simpa using empty
        simp [foldsAfter, nil, isFoldedText]
      rw [unfold_cons, plain, skip]
      simp only [Bool.false_eq_true, if_false, List.map_cons, lineOf, empty, if_true, readRegion]
      rw [Nat.add_right_comm]
      exact rest

/-! ### The value -/

theorem trailing_append_empties {ls : List Line} {t : List Char}
    (last : ls.getLast? = some (.text t)) (e : Nat) :
    trailing (ls ++ List.replicate e .empty) = e := by
  obtain ⟨init, rfl⟩ := List.getLast?_eq_some_iff.mp last
  have empties : ∀ x ∈ List.replicate e Line.empty, (x == .empty) = true := by
    simp [List.mem_replicate]
  simp only [trailing, List.reverse_append, List.reverse_replicate,
    List.takeWhile_append_of_pos empties, List.reverse_cons, List.reverse_nil, List.nil_append,
    List.singleton_append]
  simp

/-- The value of the lines the writer makes of the pieces `L` of a body that does not end in a
line break, followed by `e` empty lines: the pieces joined by line breaks, then the line break
ending the last piece unless stripped, then the `e` breaks when kept. -/
theorem blockValue_pieces (folded : Bool) (t : Chomping) {L : List String} (nonempty : L ≠ [])
    (last : L.getLast? ≠ some "") (e : Nat) :
    blockValue folded t (((if folded then Encoded.unfold L else L) ++ List.replicate e "").map lineOf) =
      ['\n'].intercalate (L.map String.toList) ++ (if t = .strip then [] else ['\n']) ++
        (if t = .keep then List.replicate e '\n' else []) := by
  obtain ⟨l, lastIs⟩ : ∃ l, L.getLast? = some l := by
    cases h : L.getLast? with
    | none => simp_all
    | some l => exact ⟨l, rfl⟩
  have text : l.isEmpty = false := by simpa [lastIs] using last
  have lastLine : ((if folded then Encoded.unfold L else L).map lineOf).getLast? =
      some (.text l.toList) := by
    cases folded <;> simp [List.getLast?_map, unfold_getLast?, lastIs, lineOf_text text]
  have content : readRegion folded none 0 ((if folded then Encoded.unfold L else L).map lineOf) =
      ['\n'].intercalate (L.map String.toList) := by
    have literal := readRegion_literal none 0 L nonempty last
    simp only [Option.isSome_none, Bool.false_eq_true, if_false, Nat.add_zero,
      List.replicate_zero, List.nil_append] at literal
    cases folded
    · simpa using literal
    · have folding := readRegion_unfold none 0 L
      simp only [foldsAfter, Option.map_none, Option.getD_none, Bool.false_and,
        Bool.toNat_false, Nat.add_zero] at folding
      simpa [folding] using literal
  have anyText : (((if folded then Encoded.unfold L else L) ++ List.replicate e "").map
      lineOf).any Line.isText = true := by
    obtain ⟨init, split⟩ := List.getLast?_eq_some_iff.mp lastLine
    rw [List.map_append, split]
    simp [Line.isText]
  have empties : (List.replicate e "").map lineOf = List.replicate e .empty := by
    simp [lineOf_blank]
  rw [blockValue, if_pos anyText, List.map_append, empties, readRegion_append_empties, content,
    trailing_append_empties lastLine]

theorem body_append_breaks (cs : List Char) :
    cs = (cs.reverse.dropWhile (· == '\n')).reverse ++
        List.replicate (cs.length - (cs.reverse.dropWhile (· == '\n')).reverse.length) '\n' ∧
      (cs.reverse.dropWhile (· == '\n')).reverse.getLast? ≠ some '\n' := by
  have whole : cs.reverse.takeWhile (· == '\n') ++ cs.reverse.dropWhile (· == '\n') = cs.reverse :=
    List.takeWhile_append_dropWhile
  have breaks : cs.reverse.takeWhile (· == '\n') =
      List.replicate (cs.reverse.takeWhile (· == '\n')).length '\n' := by
    rw [List.eq_replicate_iff]
    refine ⟨rfl, fun b member => ?_⟩
    have all : (cs.reverse.takeWhile (· == '\n')).all (· == '\n') = true := List.all_takeWhile
    simpa using List.all_eq_true.mp all b member
  have length := congrArg List.length whole
  simp only [List.length_append, List.length_reverse] at length
  refine ⟨?_, ?_⟩
  · have split : cs = (cs.reverse.dropWhile (· == '\n')).reverse ++
        (cs.reverse.takeWhile (· == '\n')).reverse := by
      rw [← List.reverse_append, whole, List.reverse_reverse]
    refine split.trans ?_
    rw [breaks, List.reverse_replicate, List.length_reverse]
    congr 2
    omega
  · have notBreak := List.head?_dropWhile_not (· == '\n') cs.reverse
    rw [List.getLast?_reverse]
    intro h
    rw [h] at notBreak
    simp at notBreak

/-- The chomping the writer picks for a body followed by `breaks` line breaks. -/
def writtenChomping (body : List Char) (breaks : Nat) : Chomping :=
  if breaks = 0 then .strip else if breaks = 1 ∧ body ≠ [] then .clip else .keep

theorem chompingText_written (body : List Char) (breaks : Nat) :
    (if (breaks == 0) = true then "-"
      else if (breaks == 1 && !body.isEmpty) = true then "" else "+").toList =
      chompingText (writtenChomping body breaks) := by
  unfold writtenChomping
  by_cases zero : breaks = 0
  · simp [zero, chompingText]
  · by_cases clip : breaks = 1 ∧ body ≠ []
    · simp [clip, chompingText]
    · simp [zero, clip, chompingText]

/-- Under a text line, the chomping the writer picks gives back exactly its line breaks: the
line break ending the text unless there is none, and the rest when they are kept. -/
theorem chomped_breaks {body : List Char} (nonempty : body ≠ []) (breaks : Nat) :
    (if writtenChomping body breaks = .strip then [] else ['\n']) ++
        (if writtenChomping body breaks = .keep then List.replicate (breaks - 1) '\n' else []) =
      List.replicate breaks '\n' := by
  match breaks with
  | 0 => simp [writtenChomping]
  | 1 => simp [writtenChomping, nonempty]
  | n + 2 => simp [writtenChomping, List.replicate_succ]

/-- Reading the lines the writer makes of a body and its final line breaks gives them back. -/
theorem blockValue_written (folded : Bool) {body : List Char} (breaks : Nat)
    (bodyEnd : body.getLast? ≠ some '\n') :
    blockValue folded (writtenChomping body breaks)
        (((if folded = true then
              Encoded.unfold (if body.isEmpty = true then [] else (body.splitOn '\n').map String.ofList)
            else if body.isEmpty = true then [] else (body.splitOn '\n').map String.ofList) ++
          List.replicate (if body.isEmpty = true then breaks else breaks - 1) "").map lineOf) =
      body ++ List.replicate breaks '\n' := by
  by_cases empty : body = []
  · -- no text line: the line breaks alone, kept unless there are none
    subst empty
    have blank : ((if folded = true then Encoded.unfold [] else []) ++
        List.replicate breaks "").map lineOf = List.replicate breaks .empty := by
      cases folded <;> simp [Encoded.unfold, lineOf_blank]
    simp only [List.isEmpty_nil, ↓reduceIte, blank]
    cases breaks with
    | zero => simp [blockValue, writtenChomping]
    | succ n => simp [blockValue, writtenChomping, Line.isText]
  · have nonempty : (body.splitOn '\n').map String.ofList ≠ [] := by simp
    have last : ((body.splitOn '\n').map String.ofList).getLast? ≠ some "" := by
      have piece := splitOn_getLast_ne_nil empty bodyEnd
      rw [List.getLast?_map]
      cases h : (body.splitOn '\n').getLast? <;> simp_all
    have joined : ['\n'].intercalate (((body.splitOn '\n').map String.ofList).map String.toList) =
        body := by
      simp [List.map_map, Function.comp_def]
    have value := blockValue_pieces folded (writtenChomping body breaks) nonempty last (breaks - 1)
    simp only [List.isEmpty_iff, empty, if_false]
    rw [value, joined, List.append_assoc, chomped_breaks empty]

/-! ### Reading back what the writer writes -/

theorem header_toList (folded : Bool) {k : Nat} (pos : 0 < k) (digit : k ≤ 9) (given : Bool)
    (body : List Char) (breaks : Nat) :
    (((if folded = true then ">" else "|") ++ (if given = true then toString k else "")) ++
        (if (breaks == 0) = true then "-"
          else if (breaks == 1 && !body.isEmpty) = true then "" else "+")).toList =
      (if folded then '>' else '|') ::
        ((if given then [Nat.digitChar k] else []) ++ chompingText (writtenChomping body breaks)) := by
  have indicator : (if given = true then toString k else "").toList =
      if given then [Nat.digitChar k] else [] := by
    cases given
    · rfl
    · exact toString_digit pos digit
  rw [String.toList_append, String.toList_append, chompingText_written, indicator]
  cases folded <;> simp

theorem readHeader_written (folded : Bool) {k : Nat} (pos : 0 < k) (digit : k ≤ 9) (given : Bool)
    (t : Chomping) :
    readHeader ((if folded then '>' else '|') ::
        ((if given then [Nat.digitChar k] else []) ++ chompingText t)) =
      some ⟨folded, if given then some k else none, t⟩ := by
  cases folded <;> simp [readHeader, readIndicators_written pos digit]

theorem header_no_break (folded : Bool) {k : Nat} (digit : k ≤ 9) (given : Bool) (t : Chomping) :
    '\n' ∉ (if folded then '>' else '|') :: ((if given then [Nat.digitChar k] else []) ++ chompingText t) := by
  have digits : ∀ k < 10, Nat.digitChar k ≠ '\n' := by decide +kernel
  cases folded <;> cases given <;> cases t <;> simp [chompingText, (digits k (by omega)).symm]

theorem mem_written_lines {folded : Bool} {body : List Char} {e : Nat} {l : String} {c : Char}
    (member : l ∈ (if folded = true then
        Encoded.unfold (if body.isEmpty = true then [] else (body.splitOn '\n').map String.ofList)
      else if body.isEmpty = true then [] else (body.splitOn '\n').map String.ofList) ++
        List.replicate e "")
    (hc : c ∈ l.toList) : c ∈ body ∧ c ≠ '\n' := by
  have pieces : ∀ {l : String},
      l ∈ (if body.isEmpty = true then [] else (body.splitOn '\n').map String.ofList) →
      c ∈ l.toList → c ∈ body ∧ c ≠ '\n' := by
    intro l member hc
    split at member
    · simp at member
    · obtain ⟨piece, inSplit, rfl⟩ := List.mem_map.mp member
      exact mem_of_mem_splitOn inSplit c (by simpa using hc)
  rcases List.mem_append.mp member with member | member
  · cases folded
    · exact pieces member hc
    · rcases mem_unfold member with member | rfl
      · exact pieces member hc
      · simp at hc
  · rw [(List.mem_replicate.mp member).2] at hc
    simp at hc

theorem isNbChar_of_blockSafe {c : Char} (safe : c = '\n' ∨ c = '\t' ∨ Encoded.isPrintable c = true)
    (yaml : Yaml.isPrintable c = true) (line : c ≠ '\n') : isNbChar c = true := by
  rcases safe with rfl | rfl | printable
  · contradiction
  · decide +kernel
  · obtain ⟨-, lf, cr, bom⟩ := Encoded.isPrintable_facts printable
    simp [isNbChar, isBreak, yaml, lf, cr, bom]

/-- A value the writer may write as a block scalar, laid out under a parent indented by `p` with
its body `k` deeper, reads back by the YAML 1.2 rules as itself, when YAML streams may hold each
of its characters. -/
theorem blockOf_reads_back (v : String) (folded : Bool) (p k : Nat) (pos : 0 < k) (digit : k ≤ 9)
    (safe : Encoded.isBlockSafe v = true) (printable : ∀ c ∈ v.toList, Yaml.isPrintable c = true)
    (header : String) (lines : List String)
    (written : Encoded.blockOf v folded k = .block header lines) :
    readBlock p (blockText (p + k) header lines) = some v.toList := by
  obtain ⟨value, bodyEnd⟩ := body_append_breaks v.toList
  simp only [Encoded.blockOf, Encoded.block.injEq] at written
  obtain ⟨headerIs, linesIs⟩ := written
  generalize (v.toList.reverse.dropWhile (· == '\n')).reverse = body at value bodyEnd headerIs linesIs
  generalize v.toList.length - body.length = breaks at value headerIs linesIs
  rw [linesIs] at headerIs
  -- the digit is written exactly when the first line that is not empty starts with a space
  obtain ⟨given, headerIs, unspaced⟩ : ∃ given : Bool,
      ((if folded = true then ">" else "|") ++ (if given = true then toString k else "")) ++
          (if (breaks == 0) = true then "-"
            else if (breaks == 1 && !body.isEmpty) = true then "" else "+") = header ∧
        (given = false → ∀ l, lines.find? (fun l => !l.isEmpty) = some l →
          l.toList.head? ≠ some ' ') := by
    cases first : lines.find? (fun l => !l.isEmpty) with
    | none =>
      simp only [first] at headerIs
      exact ⟨false, headerIs, by simp⟩
    | some l =>
      simp only [first] at headerIs
      exact ⟨l.toList.head? == some ' ', headerIs, by simp⟩
  have chars : ∀ l ∈ lines, ∀ c ∈ l.toList, isNbChar c = true := by
    rw [← linesIs]
    intro l member c hc
    obtain ⟨inBody, line⟩ := mem_written_lines member hc
    have inValue : c ∈ v.toList := by
      rw [value]
      exact List.mem_append_left _ inBody
    have allowed := List.all_eq_true.mp safe c inValue
    simp only [Bool.or_eq_true, beq_iff_eq] at allowed
    exact isNbChar_of_blockSafe (or_assoc.mp allowed) (printable c inValue) line
  have noBreak : ∀ l ∈ lines, '\n' ∉ l.toList := fun l member hc => by
    simpa [isNbChar, isBreak] using chars l member '\n' hc
  have headerLine := header_toList folded pos digit given body breaks
  rw [headerIs] at headerLine
  rw [readBlock_blockText p (p + k) (by rw [headerLine]; exact header_no_break folded digit given _)
    noBreak, headerLine, readHeader_written folded pos digit, Option.bind_some,
    readBody_layOut p pos folded _ given unspaced chars, ← linesIs,
    blockValue_written folded breaks bodyEnd, ← value]

/-- A folded value with kept line breaks, laid out four columns in with its body two deeper. -/
theorem foldedSample_reads_back :
    Encoded.blockOf "a\nb\n\n" true 2 = .block ">+" ["a", "", "b", ""] ∧
      readBlock 4 (blockText 6 ">+" ["a", "", "b", ""]) = some "a\nb\n\n".toList :=
  ⟨by decide +kernel, blockOf_reads_back "a\nb\n\n" true 4 2 (by decide +kernel)
    (by decide +kernel) (by decide +kernel)
    (List.all_eq_true.mp (by decide +kernel : "a\nb\n\n".toList.all Yaml.isPrintable = true)) _ _
    (by decide +kernel)⟩

/-- U+FFFE passes the writer's check, yet YAML streams may not hold it: the block scalar the
writer makes of it does not read. -/
theorem nonCharacter_block_not_read :
    Encoded.isBlockSafe "\uFFFE" = true ∧
      Encoded.blockOf "\uFFFE" false 2 = .block "|-" ["\uFFFE"] ∧
      readBlock 0 (blockText 2 "|-" ["\uFFFE"]) = none := by
  decide +kernel

/-! ### The writer's layout -/

theorem blockLines_out (w : LineWriter) (depth : Nat) (lines : List String) :
    (w.blockLines depth lines).out.toList =
      w.out.toList ++ (layOut (w.unit * (depth + 1)) lines).flatMap ('\n' :: ·) := by
  simp only [LineWriter.blockLines]
  generalize w.unit * (depth + 1) = width
  induction lines generalizing w with
  | nil => simp [layOut]
  | cons l lines ih =>
    rw [List.foldl_cons, ih]
    cases empty : l.isEmpty
    · simp [layOut_cons_text width lines empty, LineWriter.bodyLine, LineWriter.pad, empty]
    · simp [layOut_cons_empty width lines empty, LineWriter.bodyLine, empty]

end AnnotatedYaml
