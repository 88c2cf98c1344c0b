import AnnotatedYaml.Comment.Attach
import AnnotatedYaml.Proofs.Text.Lines

/-! The comments the analyzer cuts from a text are pieces of it. -/

namespace AnnotatedYaml

open Text

/-- `s` is a comment cut from `text`. -/
structure CommentPiece (text s : List Char) : Prop where
  piece : s <:+: text
  hash : s.head? = some '#'
  noLf : '\n' ∉ s
  noCr : NoLoneCr text → '\r' ∉ s

namespace CommentPiece

variable {text ys : List Char}

theorem ofLast (piece : ys <:+: text) (hash : ys.head? = some '#') (noLf : '\n' ∉ ys)
    (last : ys.getLast? ≠ some '\r') : CommentPiece text ys :=
  ⟨piece, hash, noLf, fun lone => cr_not_mem lone piece noLf last⟩

theorem dropCr (piece : ys <:+: text) (hash : ys.head? = some '#') (noLf : '\n' ∉ ys) :
    CommentPiece text (if ys.getLast? == some '\r' then ys.dropLast else ys) := by
  obtain ⟨tl, rfl⟩ := List.head?_eq_some_iff.mp hash
  split
  · rename_i endsCr
    have more : tl ≠ [] := by
      rintro rfl
      simp at endsCr
    refine ⟨(List.dropLast_prefix _).isInfix.trans piece, ?_, ?_, ?_⟩
    · simp [List.dropLast_cons_of_ne_nil more]
    · exact fun inside => noLf (List.dropLast_subset _ inside)
    · exact fun lone => cr_not_mem_dropLast lone piece noLf
  · rename_i notCr
    exact ofLast piece hash noLf (by simpa using notCr)

theorem trimEnd (piece : ys <:+: text) (hash : ys.head? = some '#') (noLf : '\n' ∉ ys) :
    CommentPiece text (Text.trimEnd (String.ofList ys)).toList := by
  have kept :
      (Text.trimEnd (String.ofList ys)).toList = (List.dropWhile isWhite ys.reverse).reverse := by
    simp [Text.trimEnd, dropWhite]
  have front : (List.dropWhile isWhite ys.reverse).reverse <+: ys := by
    simpa using (List.dropWhile_suffix (l := ys.reverse) isWhite).reverse
  have notEmpty : List.dropWhile isWhite ys.reverse ≠ [] := by
    intro empty
    obtain ⟨tl, rfl⟩ := List.head?_eq_some_iff.mp hash
    have white := List.dropWhile_eq_nil_iff.mp empty '#' (by simp)
    revert white
    decide
  rw [kept]
  refine ofLast (front.isInfix.trans piece) ?_ (fun inside => noLf (front.subset inside)) ?_
  · obtain ⟨rest, whole⟩ := front
    cases stays : (List.dropWhile isWhite ys.reverse).reverse with
    | nil => exact absurd (List.reverse_eq_nil_iff.mp stays) notEmpty
    | cons x xs =>
      rw [stays] at whole
      rw [← whole] at hash
      simpa using hash
  · rw [List.getLast?_reverse, List.head?_eq_some_head notEmpty]
    intro same
    have notWhite := List.head_dropWhile_not isWhite notEmpty
    rw [Option.some_inj.mp same] at notWhite
    revert notWhite
    decide

end CommentPiece

/-- Every comment of a stretch of text between nodes is cut from any text the stretch is a
piece of. -/
theorem gapItems_commentPiece {text : List Char} (cs : List Char) (piece : cs <:+: text)
    (s : String) (found : GapItem.comment s ∈ gapItems cs) : CommentPiece text s.toList := by
  induction cs using gapItems.induct with
  | case1 => simp [gapItems] at found
  | case2 c rest property ih =>
    rw [gapItems, if_pos property] at found
    exact ih (((List.dropWhile_suffix _).trans (List.suffix_cons c rest)).isInfix.trans piece) found
  | case3 c rest notProperty bullet ih =>
    rw [gapItems, if_neg notProperty, if_pos bullet, List.mem_cons] at found
    rcases found with wrong | later
    · cases wrong
    · exact ih ((List.suffix_cons c rest).isInfix.trans piece) later
  | case4 c rest notProperty notBullet hash ih =>
    rw [gapItems, if_neg notProperty, if_neg notBullet, if_pos hash, List.mem_cons] at found
    rcases found with same | later
    · cases same
      rw [String.toList_ofList]
      have isHash : c = '#' := by simpa using hash
      subst isHash
      -- the comment runs from `#` to the line break, which it leaves out
      have line : ('#' :: rest.takeWhile (· != '\n')) <+: '#' :: rest :=
        ⟨rest.dropWhile (· != '\n'), by simp [List.takeWhile_append_dropWhile]⟩
      refine CommentPiece.dropCr (line.isInfix.trans piece) rfl ?_
      intro inside
      rcases List.mem_cons.mp inside with wrong | rest'
      · cases wrong
      · simpa using List.mem_takeWhile_imp rest'
    · exact ih (((List.dropWhile_suffix _).trans (List.suffix_cons c rest)).isInfix.trans piece)
        later
  | case5 c rest notProperty notBullet notHash ih =>
    rw [gapItems, if_neg notProperty, if_neg notBullet, if_neg notHash] at found
    exact ih ((List.suffix_cons c rest).isInfix.trans piece) found

theorem getElem?_cons_sub {c : Char} {rest : List Char} {i k : Nat} {x : Char}
    (later : i + 1 ≤ k ∧ rest[k - (i + 1)]? = some x) : i ≤ k ∧ (c :: rest)[k - i]? = some x := by
  obtain ⟨after, found⟩ := later
  refine ⟨by omega, ?_⟩
  rw [show k - i = k - (i + 1) + 1 by omega]
  simpa using found

theorem commentStart_go_hash (cs : List Char) (i : Nat) (single double : Bool)
    (prev : Option Char) {k : Nat} (found : commentStart.go cs i single double prev = some k) :
    i ≤ k ∧ cs[k - i]? = some '#' := by
  induction cs, i, single, double, prev using commentStart.go.induct with
  | case1 => simp [commentStart.go] at found
  | case2 c rest i single double prev quote ih =>
    rw [commentStart.go, if_pos quote] at found
    exact getElem?_cons_sub (ih found)
  | case3 c rest i single double prev notQuote doubleQuote ih =>
    rw [commentStart.go, if_neg notQuote, if_pos doubleQuote] at found
    exact getElem?_cons_sub (ih found)
  | case4 c rest i single double prev notQuote notDoubleQuote hash =>
    rw [commentStart.go, if_neg notQuote, if_neg notDoubleQuote, if_pos hash] at found
    cases found
    simp only [Bool.and_eq_true, beq_iff_eq] at hash
    simp [hash.1.1.1]
  | case5 c rest i single double prev notQuote notDoubleQuote notHash ih =>
    rw [commentStart.go, if_neg notQuote, if_neg notDoubleQuote, if_neg notHash] at found
    exact getElem?_cons_sub (ih found)

theorem commentStart_hash {cs : List Char} {k : Nat} (found : commentStart cs = some k) :
    cs[k]? = some '#' := by
  simpa using (commentStart_go_hash cs 0 false false none found).2

namespace CommentPiece

variable {text : String}

theorem header (p : Position) {at0 : Nat}
    (found : commentStart ((SourceText.ofString text).restOfLine p) = some at0) :
    CommentPiece text.toList
      (Text.trimEnd
        (String.ofList (((SourceText.ofString text).restOfLine p).drop at0))).toList := by
  refine trimEnd ((List.drop_suffix _ _).isInfix.trans (SourceText.restOfLine_infix text p)) ?_ ?_
  · rw [List.head?_drop]
    exact commentStart_hash found
  · exact fun inside => SourceText.newline_not_mem_restOfLine p (List.mem_of_mem_drop inside)

theorem restOfLine {q : Position} (hash : (SourceText.ofString text).charAt q = some '#')
    (before : q.column < (SourceText.ofString text).contentLength q.line) :
    CommentPiece text.toList
      (Text.trimEnd (String.ofList ((SourceText.ofString text).restOfLine q))).toList :=
  trimEnd (SourceText.restOfLine_infix text q) (SourceText.head?_restOfLine before ▸ hash)
    (SourceText.newline_not_mem_restOfLine q)

end CommentPiece

namespace Comments

variable {c : Comments} {i : Nat} {s : String}

theorem mem_all_of_mem_get (found : s ∈ (c.get i).all) : s ∈ c.all := by
  unfold get at found
  rw [Array.getD_eq_getD_getElem?] at found
  cases slot : c.slots[i]? with
  | none => simp [slot, Attachment.all] at found
  | some a =>
    rw [slot, Option.getD_some] at found
    exact List.mem_flatMap.mpr ⟨a, Array.mem_toList_iff.mpr (Array.mem_of_getElem? slot), found⟩

theorem mem_all_update {f : Attachment → Attachment} (found : s ∈ (c.update i f).all) :
    s ∈ c.all ∨ s ∈ (f (c.get i)).all := by
  unfold update all at found
  dsimp only at found
  rw [Array.toList_modify, List.modify_eq_set, List.mem_flatMap] at found
  obtain ⟨a, member, inside⟩ := found
  -- the table grows by empty slots only, and slot `i` is read as `get` reads it
  have grown : ∀ b ∈ (if c.slots.size ≤ i then
      c.slots ++ Array.replicate (i + 1 - c.slots.size) ({} : Attachment) else c.slots).toList,
      b ∈ c.slots.toList ∨ b = {} := by
    intro b member
    split at member
    · simp only [Array.toList_append, List.mem_append, Array.toList_replicate,
        List.mem_replicate] at member
      rcases member with old | ⟨-, empty⟩
      · exact .inl old
      · exact .inr empty
    · exact .inl member
  have same : (if c.slots.size ≤ i then
      c.slots ++ Array.replicate (i + 1 - c.slots.size) ({} : Attachment)
      else c.slots).toList[i]?.getD default = c.get i := by
    unfold get
    rw [Array.getD_eq_getD_getElem?]
    split
    · rename_i past
      rw [Array.getElem?_eq_none past, Array.toList_append,
        List.getElem?_append_right (by simpa using past)]
      rw [Array.toList_replicate, List.getElem?_replicate, if_pos (by simp; omega)]
      rfl
    · rename_i within
      rw [Array.getElem?_toList, Array.getElem?_eq_getElem (by omega)]
      rfl
  rcases List.mem_or_eq_of_mem_set member with old | new
  · rcases grown a old with kept | empty
    · exact .inl (List.mem_flatMap.mpr ⟨a, kept, inside⟩)
    · subst empty
      simp [Attachment.all] at inside
  · rw [new, same] at inside
    exact .inr inside

theorem mem_all_update_of {f : Attachment → Attachment} {added : List String}
    (grows : ∀ a, ∀ s ∈ (f a).all, s ∈ a.all ∨ s ∈ added) (found : s ∈ (c.update i f).all) :
    s ∈ c.all ∨ s ∈ added := by
  rcases mem_all_update found with old | changed
  · exact .inl old
  · exact (grows _ s changed).imp_left mem_all_of_mem_get

theorem mem_all_addLeading {xs : List String} (found : s ∈ (c.addLeading i xs).all) :
    s ∈ c.all ∨ s ∈ xs :=
  mem_all_update_of (fun a s inside => by
    simp only [Attachment.all, List.mem_append] at inside ⊢
    tauto) found

theorem mem_all_addTrailing {xs : List String} (found : s ∈ (c.addTrailing i xs).all) :
    s ∈ c.all ∨ s ∈ xs :=
  mem_all_update_of (fun a s inside => by
    simp only [Attachment.all, List.mem_append] at inside ⊢
    tauto) found

theorem mem_all_setLineEnd {x : String} (found : s ∈ (c.setLineEnd i x).all) :
    s ∈ c.all ∨ s ∈ [x] :=
  mem_all_update_of (fun a s inside => by
    simp only [Attachment.all, List.mem_append, Option.toList_some, List.mem_singleton] at inside ⊢
    tauto) found

theorem all_forTree (t : Tree) : (forTree t).all = [] := by
  simp [forTree, all, Attachment.all]

end Comments

end AnnotatedYaml
