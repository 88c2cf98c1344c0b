import AnnotatedYaml.Proofs.Layout.OnOneLine

/-! The lines of the writer's text are tidy when the texts it is given hold no line break and end in
no blank. -/

namespace AnnotatedYaml

namespace Text

def endsBlank (line : List Char) : Bool :=
  line.getLast? == some ' ' || line.getLast? == some '\t'

/-- A piece of text that can end a line: it holds no line break and ends in no blank. -/
def TidyPiece (cs : List Char) : Prop :=
  '\n' ∉ cs ∧ endsBlank cs = false

instance : DecidablePred TidyPiece := fun _ => inferInstanceAs (Decidable (_ ∧ _))

@[simp] theorem endsBlank_nil : endsBlank [] = false := rfl

theorem endsBlank_append {a b : List Char} (nonempty : b ≠ []) :
    endsBlank (a ++ b) = endsBlank b := by
  simp only [endsBlank, List.getLast?_append_of_ne_nil a nonempty]

theorem tidyPiece_nil : TidyPiece [] := ⟨List.not_mem_nil, rfl⟩

theorem eq_nil_of_all_spaces {line : List Char} (tidy : endsBlank line = false)
    (spaces : line.all (· == ' ') = true) : line = [] := by
  cases last : line.getLast? with
  | none => exact List.getLast?_eq_none_iff.mp last
  | some x =>
    have space : x = ' ' := by
      simpa using List.all_eq_true.mp spaces x (List.mem_of_getLast? last)
    simp [endsBlank, last, space] at tidy

end Text

instance : LawfulBEq Cursor where
  eq_of_beq {a b} same := by cases a <;> cases b <;> first | rfl | exact absurd same (by decide)
  rfl {a} := by cases a <;> decide

namespace LineWriter

open Text

/-- A finished line, line `k`, is tidy when it ends in no blank and is empty only as a body
line, one of the lines numbered in `body`. -/
def TidyLine (body : List Nat) (k : Nat) (line : List Char) : Prop :=
  endsBlank line = false ∧ (line = [] → k ∈ body)

/-- What line `k`, the one being written, holds by where the cursor stands: nothing at the start
of a line, a tidy line after a word, and after a bullet the line up to the bullet's marker
followed by the marker's padding. -/
def CursorFits (body : List Nat) (k : Nat) (cur : List Char) : Cursor → Prop
  | .start | .lineStart => cur = []
  | .wordEnd | .inLine => TidyLine body k cur
  | .bulletEnd => ∃ p n, cur = p ++ List.replicate n ' ' ∧ p ≠ [] ∧ endsBlank p = false

section

variable {body body' : List Nat} {k : Nat} {cur : List Char}

@[simp] theorem cursorFits_inLine : CursorFits body k cur .inLine ↔ TidyLine body k cur := Iff.rfl

@[simp] theorem cursorFits_wordEnd : CursorFits body k cur .wordEnd ↔ TidyLine body k cur :=
  Iff.rfl

@[simp] theorem cursorFits_lineStart : CursorFits body k cur .lineStart ↔ cur = [] := Iff.rfl

@[simp] theorem cursorFits_start : CursorFits body k cur .start ↔ cur = [] := Iff.rfl

theorem TidyLine.mono (grown : body ⊆ body') {line : List Char} (tidy : TidyLine body k line) :
    TidyLine body' k line :=
  ⟨tidy.1, fun empty => grown (tidy.2 empty)⟩

theorem CursorFits.mono (grown : body ⊆ body') {cursor : Cursor}
    (fits : CursorFits body k cur cursor) : CursorFits body' k cur cursor := by
  cases cursor with
  | start | lineStart | bulletEnd => exact fits
  | wordEnd | inLine => exact TidyLine.mono grown fits

theorem CursorFits.tidyLine {cursor : Cursor} (fits : CursorFits body k cur cursor)
    (away : cursor ≠ .bulletEnd) (nonempty : cur ≠ []) : TidyLine body k cur := by
  cases cursor with
  | start | lineStart => exact absurd fits nonempty
  | wordEnd | inLine => exact fits
  | bulletEnd => exact absurd rfl away

end

/-- The writer's text is the finished lines `done`, each followed by a line break, then the
line `cur` being written; the finished lines are tidy and `cur` fits the cursor. -/
structure TidyAs (w : LineWriter) (done : List (List Char)) (cur : List Char) : Prop where
  text : w.out.toList = done.flatMap (· ++ ['\n']) ++ cur
  done_unbroken : ∀ l ∈ done, '\n' ∉ l
  cur_unbroken : '\n' ∉ cur
  done_tidy : ∀ k l, done[k]? = some l → TidyLine w.bodyLines k l
  cur_fits : CursorFits w.bodyLines done.length cur w.cursor

/-- The writer's text is made of tidy lines and a line being written that fits the cursor. -/
def Tidy (w : LineWriter) : Prop := ∃ done cur, w.TidyAs done cur

/-- A tidy writer whose cursor stands after a bullet's padding only when `B` holds. -/
def Settled (B : Prop) (w : LineWriter) : Prop := w.Tidy ∧ (w.cursor = .bulletEnd → B)

theorem count_break {done : List (List Char)} {cur : List Char} (unbroken : ∀ l ∈ done, '\n' ∉ l)
    (curUnbroken : '\n' ∉ cur) : (done.flatMap (· ++ ['\n']) ++ cur).count '\n' = done.length := by
  induction done with
  | nil => simpa using List.count_eq_zero.mpr curUnbroken
  | cons l done ih =>
    have here : l.count '\n' = 0 := List.count_eq_zero.mpr (unbroken l List.mem_cons_self)
    have rest := ih fun l' member => unbroken l' (List.mem_cons_of_mem l member)
    simp only [List.flatMap_cons, List.append_assoc, List.count_append, here, rest,
      List.length_cons]
    simp only [List.count_singleton_self, zero_add]
    omega

theorem getLast?_flatMap_break :
    ∀ done : List (List Char),
      (done.flatMap (· ++ ['\n'])).getLast? = none ∨ (done.flatMap (· ++ ['\n'])).getLast? = some '\n'
  | [] => .inl rfl
  | l :: done => by
    rw [List.flatMap_cons, List.getLast?_append]
    rcases getLast?_flatMap_break done with none | last
    · simp [none]
    · simp [last]

section

variable {w w' : LineWriter} {done : List (List Char)} {cur : List Char}

theorem TidyAs.extend (shape : w.TidyAs done cur) {s : List Char}
    (grown : w'.out.toList = w.out.toList ++ s) (unbroken : '\n' ∉ s)
    (body : w'.bodyLines = w.bodyLines)
    (fits : CursorFits w.bodyLines done.length (cur ++ s) w'.cursor) :
    w'.TidyAs done (cur ++ s) where
  text := by rw [grown, shape.text, List.append_assoc]
  done_unbroken := shape.done_unbroken
  cur_unbroken := by simp [shape.cur_unbroken, unbroken]
  done_tidy := by rw [body]; exact shape.done_tidy
  cur_fits := by rw [body]; exact fits

theorem TidyAs.moved (shape : w.TidyAs done cur) (same : w'.out = w.out)
    (body : w'.bodyLines = w.bodyLines) (fits : CursorFits w.bodyLines done.length cur w'.cursor) :
    w'.TidyAs done cur := by
  have kept := shape.extend (s := []) (by rw [same, List.append_nil]) List.not_mem_nil
    body (by rwa [List.append_nil])
  rwa [List.append_nil] at kept

theorem TidyAs.breakLine (shape : w.TidyAs done cur)
    (grown : w'.out.toList = w.out.toList ++ ['\n']) (body : w.bodyLines ⊆ w'.bodyLines)
    (ended : TidyLine w.bodyLines done.length cur)
    (fits : CursorFits w'.bodyLines (done.length + 1) [] w'.cursor) :
    w'.TidyAs (done ++ [cur]) [] where
  text := by rw [grown, shape.text]; simp
  done_unbroken := by
    intro l member
    rcases List.mem_append.mp member with inDone | last
    · exact shape.done_unbroken l inDone
    · rw [List.mem_singleton.mp last]
      exact shape.cur_unbroken
  cur_unbroken := List.not_mem_nil
  done_tidy := by
    intro k l found
    have cases : done[k]? = some l ∨ (k = done.length ∧ l = cur) := by grind
    rcases cases with earlier | ⟨rfl, rfl⟩
    · exact (shape.done_tidy k l earlier).mono body
    · exact ended.mono body
  cur_fits := by simpa using fits

end

/-! ### Each writing step keeps the writer tidy -/

section

variable (w : LineWriter)

@[simp] theorem write_bodyLines (depth : Nat) (text : String) :
    (w.write depth text).bodyLines = w.bodyLines := by
  unfold write
  split
  · split <;> rfl
  · split <;> rfl

theorem write_cursor_of_ne (depth : Nat) {text : String} (nonempty : text ≠ "") :
    (w.write depth text).cursor = .inLine := by
  have written : text.isEmpty = false := by simpa using nonempty
  simp [write, written]

theorem write_empty (depth : Nat) :
    w.write depth "" = if w.cursor == .wordEnd then { w with cursor := .inLine } else w := rfl

@[simp] theorem writeComment_out (depth : Nat) (text : String) :
    (w.writeComment depth text).out = (w.write depth text).out := rfl

@[simp] theorem writeComment_cursor (depth : Nat) (text : String) :
    (w.writeComment depth text).cursor = (w.write depth text).cursor := rfl

@[simp] theorem writeComment_bodyLines (depth : Nat) (text : String) :
    (w.writeComment depth text).bodyLines = (w.write depth text).bodyLines := rfl

end

variable {w : LineWriter} {done : List (List Char)} {cur : List Char}

theorem TidyAs.write (shape : w.TidyAs done cur) (depth : Nat) {text : String}
    (nonempty : text ≠ "") (piece : TidyPiece text.toList) :
    ∃ cur', (w.write depth text).TidyAs done cur' ∧ cur' ≠ [] ∧ endsBlank cur' = false := by
  obtain ⟨pre, written, spaces⟩ := w.write_out depth nonempty
  have filled : text.toList ≠ [] := by simpa using nonempty
  have tidyEnd : endsBlank (cur ++ (pre ++ text.toList)) = false := by
    rw [← List.append_assoc, endsBlank_append filled]
    exact piece.2
  have ne : cur ++ (pre ++ text.toList) ≠ [] := by simp [filled]
  refine ⟨cur ++ (pre ++ text.toList), shape.extend ?grown ?unbroken (w.write_bodyLines ..) ?fits,
    ne, tidyEnd⟩
  case grown => rw [written, List.append_assoc]
  case unbroken =>
    simp only [List.mem_append, not_or]
    exact ⟨fun member => by simpa using spaces _ member, piece.1⟩
  case fits =>
    rw [w.write_cursor_of_ne depth nonempty, cursorFits_inLine]
    exact ⟨tidyEnd, fun empty => absurd empty ne⟩

theorem write_settled {B : Prop} (depth : Nat) {text : String} (piece : TidyPiece text.toList)
    (settled : w.Settled B) : (w.write depth text).Settled B := by
  obtain ⟨⟨done, cur, shape⟩, bullet⟩ := settled
  by_cases empty : text = ""
  · subst empty
    rw [write_empty]
    -- Empty text only takes back an owed space.
    cases cursor : w.cursor with
    | wordEnd =>
      rw [if_pos (beq_self_eq_true _)]
      refine ⟨⟨done, cur, shape.moved rfl rfl ?_⟩, by simp⟩
      simpa [cursor] using shape.cur_fits
    | start | lineStart | inLine | bulletEnd =>
      rw [if_neg (by decide)]
      exact ⟨⟨done, cur, shape⟩, bullet⟩
  · obtain ⟨cur', shape', -⟩ := shape.write depth empty piece
    exact ⟨⟨done, cur', shape'⟩, by simp [w.write_cursor_of_ne depth empty]⟩

theorem writeComment_settled {B : Prop} (depth : Nat) {text : String}
    (piece : TidyPiece text.toList) (settled : w.Settled B) :
    (w.writeComment depth text).Settled B := by
  obtain ⟨⟨done, cur, shape⟩, bullet⟩ := write_settled depth piece settled
  exact ⟨⟨done, cur, shape.moved rfl rfl (by simpa using shape.cur_fits)⟩, by simpa using bullet⟩

theorem place_settled {B : Prop} (p : Placement) (settled : w.Settled B) :
    (w.place p).Settled B := by
  obtain ⟨⟨done, cur, shape⟩, bullet⟩ := settled
  exact ⟨⟨done, cur, shape.moved rfl rfl shape.cur_fits⟩, bullet⟩

theorem space_settled {B : Prop} (settled : w.Settled B) : w.space.Settled B := by
  obtain ⟨⟨done, cur, shape⟩, bullet⟩ := settled
  unfold space
  split
  · rename_i inLine
    have fits : CursorFits w.bodyLines done.length cur .inLine := by
      simpa [beq_iff_eq.mp inLine] using shape.cur_fits
    exact ⟨⟨done, cur, shape.moved rfl rfl (by simpa using fits)⟩, by simp⟩
  · exact ⟨⟨done, cur, shape⟩, bullet⟩

theorem newline_settled {B : Prop} (settled : w.Settled B) : w.newline.Settled B := by
  obtain ⟨⟨done, cur, shape⟩, bullet⟩ := settled
  have fits := shape.cur_fits
  -- Only a line after a word is finished; elsewhere a line break is not written.
  cases cursor : w.cursor with
  | start | lineStart | bulletEnd =>
    simp only [newline, cursor]
    exact ⟨⟨done, cur, shape⟩, bullet⟩
  | wordEnd | inLine =>
    rw [cursor] at fits
    simp only [newline, cursor]
    refine ⟨⟨done ++ [cur], [], shape.breakLine (by simp) (List.Subset.refl _) fits rfl⟩, ?_⟩
    simp

theorem bullet_tidy (depth : Nat) {marker : String} (nonempty : marker ≠ "")
    (piece : TidyPiece marker.toList) (tidy : w.Tidy) :
    (w.bullet depth marker).Tidy ∧ (w.bullet depth marker).cursor = .bulletEnd := by
  obtain ⟨done, cur, shape⟩ := tidy
  obtain ⟨cur', shape', ne, tidyEnd⟩ := shape.write depth nonempty piece
  refine ⟨⟨done, cur' ++ List.replicate (max (w.unit - marker.length) 1) ' ',
    shape'.extend ?grown ?unbroken rfl ⟨cur', _, rfl, ne, tidyEnd⟩⟩, rfl⟩
  case grown => simp [bullet, pad]
  case unbroken => simp [List.mem_replicate]

theorem dropTrailingSpaces {X : List Char} (last : X.getLast? ≠ some ' ') (n : Nat) :
    ((X ++ List.replicate n ' ').reverse.dropWhile (· == ' ')).reverse = X := by
  rw [List.reverse_append, List.reverse_replicate]
  induction n with
  | zero =>
    cases reversed : X.reverse with
    | nil => simpa using reversed
    | cons x rest =>
      have head : X.reverse.head? = some x := by rw [reversed]; rfl
      rw [List.head?_reverse] at head
      have notSpace : ¬((x == ' ') = true) := by
        rw [beq_iff_eq]
        rintro rfl
        exact last head
      rw [List.replicate_zero, List.nil_append, List.dropWhile_cons_of_neg (p := (· == ' ')) notSpace,
        ← reversed, List.reverse_reverse]
  | succ n ih =>
    rw [List.replicate_succ, List.cons_append, List.dropWhile_cons_of_pos (by rfl), ih]

theorem closeBullet_settled (B : Prop) (tidy : w.Tidy) : w.closeBullet.Settled B := by
  obtain ⟨done, cur, shape⟩ := tidy
  unfold closeBullet
  split
  · rename_i atBullet
    have fits : CursorFits w.bodyLines done.length cur .bulletEnd := by
      simpa [beq_iff_eq.mp atBullet] using shape.cur_fits
    obtain ⟨p, n, rfl, ne, tidyEnd⟩ := fits
    have last : (done.flatMap (· ++ ['\n']) ++ p).getLast? ≠ some ' ' := by
      rw [List.getLast?_append_of_ne_nil _ ne]
      intro space
      simp [endsBlank, space] at tidyEnd
    have stripped := dropTrailingSpaces last n
    rw [List.append_assoc, ← shape.text] at stripped
    refine ⟨⟨done, p, ?_⟩, by simp⟩
    exact {
      text := by simp only [String.toList_ofList, stripped]
      done_unbroken := shape.done_unbroken
      cur_unbroken := fun member => shape.cur_unbroken (List.mem_append_left _ member)
      done_tidy := shape.done_tidy
      cur_fits := ⟨tidyEnd, fun empty => absurd empty ne⟩ }
  · rename_i away
    exact ⟨⟨done, cur, shape⟩, fun atBullet => absurd (by simp [atBullet]) away⟩

/-- A body line of a block scalar after a tidy line: the break finishes that line, and the body
line, numbered as the writer records it, is empty or ends as its text does. -/
theorem TidyAs.bodyLine (shape : w.TidyAs done cur) (inLine : w.cursor = .inLine)
    (width : Nat) {line : String} (piece : TidyPiece line.toList) :
    ∃ cur', (w.bodyLine width line).TidyAs (done ++ [cur]) cur' ∧
      (w.bodyLine width line).cursor = .inLine := by
  have ended : TidyLine w.bodyLines done.length cur := by
    simpa [inLine] using shape.cur_fits
  have counted : w.out.toList.count '\n' = done.length := by
    rw [shape.text]
    exact count_break shape.done_unbroken shape.cur_unbroken
  -- The line break, with the number of the line it starts recorded.
  let broken : LineWriter :=
    { w with out := w.out.push '\n', bodyLines := w.bodyLines ++ [w.out.toList.count '\n' + 1] }
  have brokenShape : broken.TidyAs (done ++ [cur]) [] :=
    shape.breakLine (by simp [broken]) (List.subset_append_left _ _) ended
      (by simp [broken, inLine, TidyLine, counted])
  unfold LineWriter.bodyLine
  split
  · exact ⟨[], brokenShape, inLine⟩
  · rename_i filled
    have text : line.toList ≠ [] := by simpa using filled
    have laid : endsBlank (List.replicate width ' ' ++ line.toList) = false := by
      rw [endsBlank_append text]
      exact piece.2
    refine ⟨[] ++ (List.replicate width ' ' ++ line.toList),
      brokenShape.extend ?grown ?unbroken rfl ?fits, inLine⟩
    case grown => simp [pad, broken]
    case unbroken => simp [List.mem_replicate, piece.1]
    case fits =>
      simp only [inLine, List.nil_append]
      exact ⟨laid, fun empty => absurd empty (by simp [text])⟩

theorem blockLines_settled {B : Prop} (depth : Nat) {lines : List String}
    (pieces : ∀ l ∈ lines, TidyPiece l.toList) (inLine : w.cursor = .inLine)
    (settled : w.Settled B) : (w.blockLines depth lines).Settled B := by
  obtain ⟨⟨done, cur, shape⟩, -⟩ := settled
  -- Each body line finishes the line before it and leaves the cursor where it was.
  have folded : ∀ (lines : List String) (v : LineWriter) (done : List (List Char))
      (cur : List Char), v.TidyAs done cur → v.cursor = .inLine → (∀ l ∈ lines, TidyPiece l.toList) →
      ∃ done' cur', (lines.foldl (bodyLine (w.unit * (depth + 1))) v).TidyAs done' cur' ∧
        (lines.foldl (bodyLine (w.unit * (depth + 1))) v).cursor = .inLine := by
    intro lines
    induction lines with
    | nil => exact fun v done cur shape inLine _ => ⟨done, cur, shape, inLine⟩
    | cons l rest ih =>
      intro v done cur shape inLine pieces
      obtain ⟨cur', shape', inLine'⟩ :=
        shape.bodyLine inLine _ (pieces l List.mem_cons_self)
      exact ih _ _ _ shape' inLine' fun l' member => pieces l' (List.mem_cons_of_mem l member)
  obtain ⟨done', cur', shape', inLine'⟩ := folded lines w done cur shape inLine pieces
  refine ⟨⟨done', cur', shape'.moved rfl rfl ?_⟩, by simp [blockLines]⟩
  simpa [blockLines, inLine'] using shape'.cur_fits

/-- A finished text is made of lines, each ended by a line break, and each is tidy. -/
theorem TidyAs.finish_lines (shape : w.TidyAs done cur) (away : w.cursor ≠ .bulletEnd) :
    ∃ lines : List (List Char), w.finish.toList = lines.flatMap (· ++ ['\n']) ∧
      (∀ l ∈ lines, '\n' ∉ l) ∧ ∀ k l, lines[k]? = some l → TidyLine w.bodyLines k l := by
  by_cases empty : cur = []
  · subst empty
    -- The text ends with a finished line, or is empty: nothing is added.
    have kept : w.finish = w.out := by
      have last := getLast?_flatMap_break done
      have text : w.out.toList = done.flatMap (· ++ ['\n']) := by rw [shape.text, List.append_nil]
      unfold finish
      rw [if_neg]
      rcases last with none | last
      · have blank : w.out = "" := by
          rw [← String.toList_eq_nil_iff, text]
          exact List.getLast?_eq_none_iff.mp none
        simp [blank]
      · simp [text, last]
    refine ⟨done, ?_, shape.done_unbroken, shape.done_tidy⟩
    rw [kept, shape.text, List.append_nil]
  · -- The line being written is finished by the line break that `finish` adds.
    have last : w.out.toList.getLast? = cur.getLast? := by
      rw [shape.text, List.getLast?_append_of_ne_nil _ empty]
    have notBreak : cur.getLast? ≠ some '\n' := fun isBreak =>
      shape.cur_unbroken (List.mem_of_getLast? isBreak)
    have filled : w.out ≠ "" := by
      intro blank
      rw [blank] at last
      exact empty (List.getLast?_eq_none_iff.mp (by simpa using last.symm))
    have added : w.finish = w.out.push '\n' := by
      unfold finish
      rw [if_pos]
      simp [filled, last, notBreak]
    have ended := shape.cur_fits.tidyLine away empty
    refine ⟨done ++ [cur], ?_, ?_, ?_⟩
    · rw [added, String.toList_push, shape.text]
      simp
    · intro l member
      rcases List.mem_append.mp member with inDone | here
      · exact shape.done_unbroken l inDone
      · rw [List.mem_singleton.mp here]
        exact shape.cur_unbroken
    · intro k l found
      have cases : done[k]? = some l ∨ (k = done.length ∧ l = cur) := by grind
      rcases cases with earlier | ⟨rfl, rfl⟩
      · exact shape.done_tidy k l earlier
      · exact ended

theorem settled_start (unit : Nat) : ({ unit } : LineWriter).Settled False :=
  ⟨⟨[], [], ⟨rfl, by simp, List.not_mem_nil, by simp, rfl⟩⟩, by simp⟩

end LineWriter

end AnnotatedYaml
