import AnnotatedYaml.Proofs.Layout.WriterLines
import AnnotatedYaml.Proofs.Layout.Checks
import AnnotatedYaml.Proofs.Layout.TagShorthand
import AnnotatedYaml.Proofs.Scalar.BlockReading
import AnnotatedYaml.Proofs.Layout.CommentLines

/-! No line of written text ends in a blank, when the texts the writer copies out allow it. -/

namespace AnnotatedYaml

open Text

namespace Text

/-- No line of a text ends in a blank. -/
def TidyLines (cs : List Char) : Prop := ∀ l ∈ cs.splitOn '\n', endsBlank l = false

instance : DecidablePred TidyLines := fun _ => inferInstanceAs (Decidable (∀ _ ∈ _, _))

theorem tidyPiece_of_solid {cs : List Char} (solid : ∀ x ∈ cs, x ≠ '\n' ∧ x ≠ ' ' ∧ x ≠ '\t') :
    TidyPiece cs := by
  refine ⟨fun member => (solid _ member).1 rfl, ?_⟩
  cases last : cs.getLast? with
  | none => simp [endsBlank, last]
  | some x =>
    obtain ⟨-, space, tab⟩ := solid x (List.mem_of_getLast? last)
    simp [endsBlank, last, space, tab]

theorem TidyPiece.after {a b : List Char} (front : '\n' ∉ a) (back : TidyPiece b)
    (nonempty : b ≠ []) : TidyPiece (a ++ b) :=
  ⟨by simp [front, back.1], by rw [endsBlank_append nonempty]; exact back.2⟩

theorem TidyPiece.append {a b : List Char} (front : TidyPiece a) (back : TidyPiece b) :
    TidyPiece (a ++ b) := by
  by_cases empty : b = []
  · rw [empty, List.append_nil]
    exact front
  · exact back.after front.1 empty

theorem TidyLines.piece {cs : List Char} (lines : TidyLines cs) (unbroken : '\n' ∉ cs) :
    TidyPiece cs := by
  have single : cs.splitOn '\n' = [cs] := List.splitOnP_eq_singleton fun x member => by
    have other : x ≠ '\n' := fun same => unbroken (same ▸ member)
    simpa using other
  exact ⟨unbroken, lines cs (by rw [single]; exact List.mem_singleton_self cs)⟩

theorem mem_splitOn_of_breaks {body seg : List Char} (k : Nat)
    (member : seg ∈ body.splitOn '\n') : seg ∈ (body ++ List.replicate k '\n').splitOn '\n' := by
  cases k with
  | zero => simpa using member
  | succ k =>
    rw [List.replicate_succ]
    show seg ∈ (body ++ '\n' :: List.replicate k '\n').splitOnP (· == '\n')
    rw [List.splitOnP_append_cons _ _ (by rfl)]
    exact List.mem_append_left _ member

end Text

/-! ### The texts the writer copies out -/

theorem commentText_tidy {id : Nat} {line text : String} (clean : endsBlank line.toList = false)
    (ok : commentText id line = .ok text) : TidyPiece text.toList ∧ text ≠ "" := by
  rw [commentText_eq] at ok
  split at ok
  · rename_i valid
    cases ok
    obtain ⟨hash, unbroken, -⟩ := valid
    have filled : Text.trimStart line ≠ "" := by
      intro blank
      rw [blank] at hash
      exact absurd hash (by decide)
    have trimmed : (Text.trimStart line).toList = line.toList.dropWhile Text.isWhite := by
      simp [Text.trimStart, Text.dropWhite]
    have whole : line.toList.takeWhile Text.isWhite ++ (Text.trimStart line).toList = line.toList := by
      rw [trimmed]
      exact List.takeWhile_append_dropWhile
    have nonempty : (Text.trimStart line).toList ≠ [] := by simpa using filled
    refine ⟨⟨unbroken, ?_⟩, filled⟩
    rw [← endsBlank_append (a := line.toList.takeWhile Text.isWhite) nonempty, whole]
    exact clean
  · cases ok

theorem TagScope.isSuffix_solid {x : String} (valid : isSuffix x = true) :
    ∀ c ∈ x.toList, c ≠ '\n' ∧ c ≠ ' ' ∧ c ≠ '\t' := by
  have chars := TagScope.suffixChars_mem _ ((TagScope.isSuffix_iff x).mp valid).2
  intro c member
  have allowed := chars c member
  refine ⟨?_, ?_, ?_⟩ <;> rintro rfl <;> revert allowed <;> decide +kernel

/-- The short form of a tag can end a line when neither the tag nor a handle holds a line
break: it is `!`, a handle followed by a valid suffix, or the tag between `!<` and `>`. -/
theorem TagScope.render_tidy {scope : TagScope} {tag : String} (handles : scope.onOneLine = true)
    (inLine : '\n' ∉ tag.toList) : TidyPiece (scope.render tag).toList := by
  by_cases bang : tag = "!"
  · rw [bang, TagScope.render_bang]
    decide
  rcases TagScope.render_cases scope bang with ⟨h, e, member, -, valid, written, -⟩ | ⟨-, written⟩
  · have handle : '\n' ∉ h.toList := by
      simpa using List.all_eq_true.mp handles (h, e) member
    have filled : (String.ofList (tag.toList.drop e.length)).toList ≠ [] := by
      simpa using ((TagScope.isSuffix_iff _).mp valid).1
    rw [written, String.toList_append]
    exact (tidyPiece_of_solid (TagScope.isSuffix_solid valid)).after handle filled
  · rw [written, String.toList_append]
    exact TidyPiece.after (by simpa using inLine) (by decide) (by decide)

theorem TagScope.forDocument_onOneLine {ds : List TagDirective}
    (handles : ∀ d ∈ ds, '\n' ∉ d.handle.toList) : (TagScope.forDocument ds).onOneLine = true := by
  refine List.all_eq_true.mpr fun ⟨h, p⟩ member => ?_
  have given := ((TagScope.forDocument_handles ds).2 h p).mp member
  cases named : TagScope.directivePrefix ds h with
  | some p' =>
    obtain ⟨d, inDs, rfl⟩ := TagScope.directivePrefix_named named
    simpa using handles d inDs
  | none =>
    rw [named, Option.none_or] at given
    obtain ⟨front, back, spelled, -⟩ := List.lookup_eq_some_iff.mp given
    have standardEntry : (h, p) ∈ TagScope.standard.handles :=
      spelled ▸ List.mem_append_right _ List.mem_cons_self
    simp only [TagScope.standard, List.mem_cons, Prod.mk.injEq, List.not_mem_nil,
      or_false] at standardEntry
    rcases standardEntry with ⟨rfl, -⟩ | ⟨rfl, -⟩ <;> dsimp only <;> decide

theorem written_line_cases {folded : Bool} {body : List Char} {e : Nat} {l : String}
    (member : l ∈ (if folded = true then
        Encoded.unfold (if body.isEmpty = true then [] else (body.splitOn '\n').map String.ofList)
      else if body.isEmpty = true then [] else (body.splitOn '\n').map String.ofList) ++
        List.replicate e "") :
    l = "" ∨ ∃ seg ∈ body.splitOn '\n', l = String.ofList seg := by
  have pieces : ∀ {l : String},
      l ∈ (if body.isEmpty = true then [] else (body.splitOn '\n').map String.ofList) →
      ∃ seg ∈ body.splitOn '\n', l = String.ofList seg := by
    intro l member
    split at member
    · simp at member
    · obtain ⟨seg, inSplit, rfl⟩ := List.mem_map.mp member
      exact ⟨seg, inSplit, rfl⟩
  rcases List.mem_append.mp member with member | member
  · cases folded
    · exact .inr (pieces member)
    · rcases mem_unfold member with member | rfl
      · exact .inr (pieces member)
      · exact .inl rfl
  · exact .inl (List.mem_replicate.mp member).2

theorem blockHeader_tidy (folded given : Bool) (k : Nat) {chomp : String}
    (chompIs : chomp = "-" ∨ chomp = "" ∨ chomp = "+") :
    TidyPiece (((if folded = true then ">" else "|") ++ (if given = true then toString k else "")) ++
      chomp).toList := by
  apply tidyPiece_of_solid
  intro x member
  simp only [String.toList_append, List.mem_append] at member
  rcases member with (mark | indicator) | inChomp
  · cases folded <;> simp only [Bool.false_eq_true, if_false, if_true] at mark <;>
      simp only [List.mem_singleton.mp mark] <;> decide
  · cases given
    · simp at indicator
    · simp only [if_true] at indicator
      rw [Nat.toString_eq_ofList_toDigits, String.toList_ofList] at indicator
      have digit := Nat.isDigit_of_mem_toDigits (by decide) (by decide) indicator
      refine ⟨?_, ?_, ?_⟩ <;> rintro rfl <;> exact absurd digit (by decide)
  · rcases chompIs with rfl | rfl | rfl <;> simp at inChomp <;> subst inChomp <;> decide

theorem blockOf_tidy {v : String} {folded : Bool} {indent : Nat} {header : String}
    {lines : List String} (value : TidyLines v.toList)
    (written : Encoded.blockOf v folded indent = .block header lines) :
    TidyPiece header.toList ∧ header ≠ "" ∧ ∀ l ∈ lines, TidyPiece l.toList := by
  obtain ⟨whole, -⟩ := body_append_breaks v.toList
  simp only [Encoded.blockOf, Encoded.block.injEq] at written
  obtain ⟨headerIs, linesIs⟩ := written
  generalize (v.toList.reverse.dropWhile (· == '\n')).reverse = body at whole headerIs linesIs
  generalize v.toList.length - body.length = breaks at whole headerIs linesIs
  -- The header is a style mark, the digits when given, and a chomping sign.
  obtain ⟨given, chomp, chompIs, headerIs⟩ : ∃ (given : Bool) (chomp : String),
      (chomp = "-" ∨ chomp = "" ∨ chomp = "+") ∧
        ((if folded = true then ">" else "|") ++ (if given = true then toString indent else "")) ++
          chomp = header := by
    refine ⟨_, _, ?_, headerIs⟩
    repeat' split
    all_goals simp
  refine ⟨headerIs ▸ blockHeader_tidy folded given indent chompIs, ?_, ?_⟩
  · rw [← headerIs]
    intro blank
    have length := congrArg (fun s : String => s.toList.length) blank
    simp only [String.toList_append, List.length_append] at length
    cases folded <;> simp at length
  · rw [← linesIs]
    intro l member
    rcases written_line_cases member with rfl | ⟨seg, inSplit, rfl⟩
    · exact tidyPiece_nil
    · have inValue : seg ∈ v.toList.splitOn '\n' := by
        rw [whole]
        exact mem_splitOn_of_breaks _ inSplit
      rw [String.toList_ofList]
      exact ⟨fun member => (mem_of_mem_splitOn inSplit '\n' member).2 rfl, value seg inValue⟩

/-- What a scalar is written as can end lines: inline text, or a block scalar's header and body
lines, when no line of its value ends in a blank. -/
theorem encode_tidy {s : Scalar} {inFlow : Bool} {indent : Nat} (value : TidyLines s.value.toList) :
    (∀ x, s.encode inFlow indent = .inline x → TidyPiece x.toList) ∧
      ∀ header lines, s.encode inFlow indent = .block header lines →
        TidyPiece header.toList ∧ header ≠ "" ∧ ∀ l ∈ lines, TidyPiece l.toList := by
  constructor
  · intro x written
    have unbroken : '\n' ∉ x.toList := fun member => by
      simpa [Yaml.isBreak] using encode_inline_no_break written '\n' member
    -- Quoted text ends with its quote.
    have quoted : ∀ (q : Char) (body : List Char), (q :: (body ++ [q])).getLast? = some q := by
      intro q body
      rw [← List.cons_append, List.getLast?_append_of_ne_nil _ (by simp)]
      rfl
    rcases encode_inline_forms written with ⟨rfl, -⟩ | ⟨rfl, -⟩ | rfl
    · exact value.piece unbroken
    · refine ⟨unbroken, ?_⟩
      simp [Encoded.singleQuoted, endsBlank, quoted]
    · refine ⟨unbroken, ?_⟩
      simp [Encoded.doubleQuoted, endsBlank, quoted]
  · intro header lines written
    -- Only the block styles are written as blocks, through `blockOf`.
    unfold Scalar.encode at written
    cases style : s.style <;> simp only [style] at written
    all_goals repeat' split at written
    all_goals first
      | exact blockOf_tidy value written
      | cases written

/-! ### The texts of an annotated tree -/

/-- What writing needs of the texts a node copies out: its anchor and its alias name hold no
line break and end in no blank, its tag holds no line break, no line of its value ends in a
blank, and its tag directives have handles without a line break and prefixes that are not
empty and can end a line. -/
structure NodeKind.TidyTexts (k : NodeKind) : Prop where
  anchor : ∀ a, k.anchor = some a → TidyPiece a.toList
  tag : ∀ tag, k.tag = some tag → '\n' ∉ tag.toList
  aliasName : ∀ name, k = .alias name → TidyPiece name.toList
  value : ∀ s, k = .scalar s → TidyLines s.value.toList
  directives : ∀ d, k = .document d → ∀ dir ∈ d.tagDirectives,
    '\n' ∉ dir.handle.toList ∧ dir.expansion ≠ "" ∧ TidyPiece dir.expansion.toList

/-- What writing needs of the texts of an annotated tree to keep its lines tidy: no stored
comment ends in a blank, and the texts of every node are tidy. -/
structure AnnotatedTree.TidyTexts (a : AnnotatedTree) : Prop where
  comments : ∀ x ∈ a.comments.all, endsBlank x.toList = false
  nodes : ∀ n ∈ a.tree.nodes.toList, n.kind.TidyTexts

/-- The same conditions as the writing functions read them: by node number. -/
structure TidySource (t : Tree) (c : Comments) : Prop where
  comments : ∀ i, ∀ x ∈ (c.get i).all, endsBlank x.toList = false
  kinds : ∀ i k, t.kind? i = some k → k.TidyTexts

theorem AnnotatedTree.TidyTexts.source {a : AnnotatedTree} (tidy : a.TidyTexts) :
    TidySource a.tree a.comments where
  comments i x member := tidy.comments x (Comments.mem_all_of_mem_get member)
  kinds i k found := by
    obtain ⟨n, stored, rfl⟩ := Option.map_eq_some_iff.mp found
    exact tidy.nodes n (Array.mem_toList_iff.mpr (Array.mem_of_getElem? stored))

section

variable {t : Tree} {c : Comments}

theorem TidySource.leading (tidy : TidySource t c) (i : Nat) :
    ∀ x ∈ c.leading i, endsBlank x.toList = false := fun x member =>
  tidy.comments i x (Comments.mem_get_all.mpr (.inl member))

theorem TidySource.trailing (tidy : TidySource t c) (i : Nat) :
    ∀ x ∈ c.trailing i, endsBlank x.toList = false := fun x member =>
  tidy.comments i x (Comments.mem_get_all.mpr (.inr (.inr member)))

theorem TidySource.lineEnd (tidy : TidySource t c) {i : Nat} {x : String}
    (found : c.lineEnd i = some x) : endsBlank x.toList = false :=
  tidy.comments i x (Comments.mem_get_all.mpr (.inr (.inl found)))

end

/-! ### Writing keeps the writer settled -/

namespace Emit

open LineWriter

section

variable {α β : Type} {P : LineWriter → Prop}

/-- Run from a writer that satisfies `P`, `m` ends, whenever it succeeds, with a result and a
writer that satisfy `Q`. -/
abbrev Triple (P : LineWriter → Prop) (m : Emit α) (Q : α → LineWriter → Prop) : Prop :=
  Hoare P m Q fun _ => True

/-- `m` keeps the writer settled, whatever may stand after a bullet. -/
def KeepsTidy (m : Emit α) : Prop := ∀ B, Triple (Settled B) m fun _ => Settled B

theorem Triple.stay (a : α) : Triple P (Pure.pure a : Emit α) fun _ => P :=
  Hoare.pure a fun _ holds => holds

theorem Triple.mono {P' : LineWriter → Prop} {Q Q' : α → LineWriter → Prop} {m : Emit α}
    (holds : Triple P m Q) (pre : ∀ w, P' w → P w) (post : ∀ a w, Q a w → Q' a w) :
    Triple P' m Q' :=
  Hoare.mono holds pre post fun _ failed => failed

theorem Triple.out {Q : PUnit → LineWriter → Prop} {f : LineWriter → LineWriter}
    (step : ∀ w, P w → Q () (f w)) : Triple P (Emit.out f) Q :=
  Hoare.modify f step

theorem Triple.afterOut {Q : LineWriter → Prop} {R : β → LineWriter → Prop}
    {f : LineWriter → LineWriter} {m : Emit β} (step : ∀ w, P w → Q (f w)) (rest : Triple Q m R) :
    Triple P (Emit.out f >>= fun _ => m) R :=
  Hoare.bind (Triple.out step) fun _ => rest

theorem Triple.afterLookup {Q : β → LineWriter → Prop} {m : Emit β} (t : Tree) (id : Nat)
    (rest : Triple P m Q) : Triple P (Emit.lookup t id >>= fun _ => m) Q := by
  refine Hoare.bind ?_ fun _ => rest
  unfold Emit.lookup
  split
  · exact Triple.stay ()
  · exact Hoare.throw trivial

theorem nextHasDirectives_stays (t : Tree) (next : Option Nat) :
    Triple P (nextHasDirectives t next) fun _ => P := by
  unfold nextHasDirectives
  split
  · exact Triple.stay false
  · apply Triple.afterLookup
    split <;> exact Triple.stay _

theorem Triple.get : Triple P (MonadState.get : Emit LineWriter) fun v w => P w ∧ w = v :=
  Hoare.get fun _ holds => ⟨holds, rfl⟩

theorem Triple.liftExcept (e : Except Error α) :
    Triple P (Emit.liftExcept e) fun a w => e = .ok a ∧ P w := by
  cases e with
  | ok a => exact Hoare.pure a fun _ holds => ⟨rfl, holds⟩
  | error err => exact Hoare.throw trivial

theorem Triple.forIn {σ : Type} {I : LineWriter → Prop} (xs : List β) (s : σ)
    {f : β → σ → Emit (ForInStep σ)} (step : ∀ x ∈ xs, ∀ s, Triple I (f x s) fun _ => I) :
    Triple I (ForIn.forIn xs s f) fun _ => I :=
  Hoare.forIn (fun _ => I) xs step s

end

section

variable {B : Prop} {t : Tree} {c : Comments} {claims : BulletClaims}

theorem comments_tidy (id depth : Nat) {lines : List String}
    (clean : ∀ l ∈ lines, endsBlank l.toList = false) :
    Triple (Settled B) (comments id depth lines) fun _ => Settled B := by
  unfold comments
  refine Hoare.bind (Triple.forIn lines PUnit.unit fun line member _ => ?_) fun _ => Triple.stay ()
  refine Hoare.bind (Triple.liftExcept _) fun text => Hoare.assume fun ok => ?_
  have piece := (commentText_tidy (clean line member) ok).1
  exact Triple.afterOut (fun _ => newline_settled)
    (Triple.afterOut (fun _ => writeComment_settled depth piece)
      (Triple.afterOut (fun _ => newline_settled) (Triple.stay _)))

theorem lineEnd_tidy (tidy : TidySource t c) (id : Nat) (Q : Cursor → Prop) (word : Q .inLine) :
    Triple (fun w => w.Settled B ∧ Q w.cursor) (lineEnd c id) fun _ w => w.Settled B ∧ Q w.cursor := by
  unfold lineEnd
  split
  · exact Triple.stay false
  · rename_i line found
    refine Hoare.bind (Triple.liftExcept _) fun text => ?_
    refine Triple.mono (P := fun w => commentText id line = .ok text ∧ w.Settled B) ?_
      (fun w holds => ⟨holds.1, holds.2.1⟩) (fun _ _ holds => holds)
    refine Hoare.assume fun ok => ?_
    obtain ⟨piece, filled⟩ := commentText_tidy (tidy.lineEnd found) ok
    refine Triple.afterOut (fun _ => space_settled) (Hoare.bind (Triple.out fun w settled => ?_)
      fun _ => Triple.stay true)
    refine ⟨writeComment_settled 0 piece settled, ?_⟩
    simpa [write_cursor_of_ne _ 0 filled] using word

theorem inlineEnd_tidy (tidy : TidySource t c) (id : Nat) (frame : Frame) :
    Triple (Settled B) (inlineEnd c id frame) fun _ => Settled B := by
  unfold inlineEnd
  refine Hoare.bind ((lineEnd_tidy tidy id (fun _ => True) trivial).mono
    (fun w settled => ⟨settled, trivial⟩) (fun _ _ holds => holds.1)) fun ended => ?_
  have trailing := comments_tidy (B := B) id frame.depth (tidy.trailing id)
  exact Hoare.ite (fun _ => Triple.afterOut (fun _ => newline_settled) trailing) fun _ => trailing

theorem scalar_tidy (tidy : TidySource t c) {id : Nat} {s : Scalar} (frame : Frame)
    (value : TidyLines s.value.toList) :
    Triple (Settled B) (scalar c id s frame) fun _ => Settled B := by
  unfold scalar
  refine Hoare.bind Triple.get fun writer => ?_
  refine Triple.mono (P := Settled B) ?_ (fun _ holds => holds.1) (fun _ _ holds => holds)
  dsimp only
  split
  · rename_i text written
    exact Triple.afterOut (fun _ => write_settled frame.depth ((encode_tidy value).1 text written))
      (inlineEnd_tidy tidy id frame)
  · rename_i header lines written
    obtain ⟨headerPiece, filled, linePieces⟩ := (encode_tidy value).2 header lines written
    -- After the header the cursor is after a word, and a line-end comment leaves it there, so
    -- the body lines start on lines of their own.
    refine Triple.afterOut (Q := fun w => w.Settled B ∧ w.cursor = .inLine)
      (fun w settled => ⟨write_settled frame.depth headerPiece settled,
        write_cursor_of_ne _ frame.depth filled⟩) ?_
    refine Hoare.bind (lineEnd_tidy tidy id (· = .inLine) rfl) fun _ => ?_
    exact Triple.afterOut (fun w holds => blockLines_settled frame.depth linePieces holds.2 holds.1)
      (comments_tidy id frame.depth (tidy.trailing id))

theorem properties_tidy {k : NodeKind} (texts : k.TidyTexts) (frame : Frame)
    (handles : frame.tags.onOneLine = true) :
    Triple (Settled B) (properties k frame) fun _ => Settled B := by
  have anchorPiece : ∀ a, k.anchor = some a → TidyPiece ("&" ++ a).toList := fun a anchor => by
    rw [String.toList_append]
    exact TidyPiece.append (by decide) (texts.anchor a anchor)
  have tagPiece : ∀ tag, k.tag = some tag → TidyPiece (frame.tags.render tag).toList :=
    fun tag tagged => TagScope.render_tidy handles (texts.tag tag tagged)
  unfold properties
  -- The anchor, then the tag, each when the node has one.
  cases anchor : k.anchor <;> cases tag : k.tag <;> dsimp only
  · exact Triple.stay ()
  · exact Triple.afterOut (fun _ => write_settled frame.depth (tagPiece _ tag))
      (Triple.out fun _ => space_settled)
  · exact Triple.afterOut (fun _ => write_settled frame.depth (anchorPiece _ anchor))
      (Triple.afterOut (fun _ => space_settled) (Triple.stay ()))
  · exact Triple.afterOut (fun _ => write_settled frame.depth (anchorPiece _ anchor))
      (Triple.afterOut (fun _ => space_settled)
        (Triple.afterOut (fun _ => write_settled frame.depth (tagPiece _ tag))
          (Triple.out fun _ => space_settled)))

theorem blockEnd_tidy (tidy : TidySource t c) (id depth : Nat) :
    Triple (Settled B) (blockEnd c id depth) fun _ => Settled B := by
  unfold blockEnd
  have trailing := comments_tidy (B := B) id depth (tidy.trailing id)
  split
  · rename_i line found
    exact Hoare.bind (comments_tidy id depth (by simpa using tidy.lineEnd found)) fun _ => trailing
  · exact trailing

end

section

variable {α β : Type} {B : Prop}

theorem Triple.separated {m : Emit β} {R : β → LineWriter → Prop} (i depth : Nat)
    (item : Triple (Settled B) m R) :
    Triple (Settled B)
      (if i > 0 then do Emit.out (·.write depth ","); Emit.out (·.space); m else m) R :=
  Hoare.ite (fun _ => Triple.afterOut (fun _ => write_settled depth (by decide))
    (Triple.afterOut (fun _ => space_settled) item)) fun _ => item

theorem Triple.colon {m : Emit β} {R : β → LineWriter → Prop} (depth : Nat)
    (value : Triple (Settled B) m R) :
    Triple (Settled B) (do Emit.out (·.write depth ":"); Emit.out (·.space); m) R :=
  Triple.afterOut (fun _ => write_settled depth (by decide))
    (Triple.afterOut (fun _ => space_settled) value)

theorem Triple.bulleted (depth : Nat) {marker : String} (nonempty : marker ≠ "")
    (piece : TidyPiece marker.toList) {m : Emit α} {m' : Emit β} {R : β → LineWriter → Prop}
    (inner : Triple (Settled True) m fun _ => Settled True) (rest : Triple (Settled B) m' R) :
    Triple (Settled B) (Emit.out (·.bullet depth marker) >>= fun _ => m >>= fun _ =>
      Emit.out (·.closeBullet) >>= fun _ => m') R :=
  Triple.afterOut (fun _ settled => ⟨(bullet_tidy depth nonempty piece settled.1).1, fun _ => trivial⟩)
    (Hoare.bind inner fun _ => Triple.afterOut (fun _ settled => closeBullet_settled B settled.1) rest)

end

section

variable (t : Tree) (c : Comments) (claims : BulletClaims)

/-- Every node written with fuel `G`, in a frame whose tag handles hold no line break, keeps the
writer settled. -/
def NodesTidy (G : Nat) : Prop :=
  ∀ k (inner : Frame), inner.tags.onOneLine = true → KeepsTidy (node t c claims G k inner)

/-- Every node's content written with fuel `G`, in a frame whose tag handles hold no line break,
keeps the writer settled. -/
def ContentsTidy (G : Nat) : Prop :=
  ∀ k (inner : Frame), inner.tags.onOneLine = true → KeepsTidy (content t c claims G k inner)

end

section

variable {t : Tree} {c : Comments} {claims : BulletClaims}

theorem flowSequence_tidy (tidy : TidySource t c) (F id : Nat) (kids : List Nat) (frame : Frame)
    (handles : frame.tags.onOneLine = true) (nodes : ∀ G < F, NodesTidy t c claims G) :
    KeepsTidy (flowSequence t c claims F id kids frame) := by
  intro B
  cases F with
  | zero =>
    rw [flowSequence]
    exact Triple.stay ()
  | succ G =>
    rw [flowSequence]
    refine Triple.afterOut (fun _ => write_settled frame.depth (by decide)) ?_
    refine Hoare.bind (Triple.forIn _ _ ?step) fun _ =>
      Triple.afterOut (fun _ => write_settled frame.depth (by decide)) (inlineEnd_tidy tidy id frame)
    case step =>
      rintro ⟨child, i⟩ _ _
      exact Triple.separated i (frame.depth + 1)
        (Hoare.bind (nodes G (Nat.lt_succ_self G) child _ (by exact handles) B) fun _ => Triple.stay _)

theorem flowMapping_tidy (tidy : TidySource t c) (F id : Nat) (kids : List Nat) (frame : Frame)
    (handles : frame.tags.onOneLine = true) (nodes : ∀ G < F, NodesTidy t c claims G) :
    KeepsTidy (flowMapping t c claims F id kids frame) := by
  intro B
  cases F with
  | zero =>
    rw [flowMapping]
    exact Triple.stay ()
  | succ G =>
    rw [flowMapping]
    refine Triple.afterOut (fun _ => write_settled frame.depth (by decide)) ?_
    refine Hoare.bind (Triple.forIn _ _ ?step) fun _ =>
      Triple.afterOut (fun _ => write_settled frame.depth (by decide)) (inlineEnd_tidy tidy id frame)
    case step =>
      rintro ⟨⟨key, value⟩, i⟩ _ _
      have entry := nodes G (Nat.lt_succ_self G)
      refine Triple.separated i (frame.depth + 1)
        (Hoare.bind (entry key _ (by exact handles) B) fun _ => ?_)
      -- The value, after its `:`, unless it is a bare null.
      have written := Hoare.bind (entry value { frame with depth := frame.depth + 1, flow := true }
        handles B) fun _ => Triple.stay (ForInStep.yield PUnit.unit)
      exact Triple.afterLookup t value (Hoare.ite (fun _ => Triple.afterLookup t key (Hoare.ite
        (fun _ => Triple.afterOut (fun _ => space_settled) (Triple.colon (frame.depth + 1) written))
        fun _ => Triple.colon (frame.depth + 1) written)) fun _ => Triple.stay _)

theorem blockSequence_tidy (tidy : TidySource t c) (F id : Nat) (kids : List Nat) (frame : Frame)
    (handles : frame.tags.onOneLine = true) (nodes : ∀ G < F, NodesTidy t c claims G) :
    KeepsTidy (blockSequence t c claims F id kids frame) := by
  intro B
  cases F with
  | zero =>
    rw [blockSequence]
    exact Triple.stay ()
  | succ G =>
    rw [blockSequence]
    refine Triple.afterOut (fun _ => newline_settled) ?_
    refine Hoare.bind (Triple.forIn _ _ ?step) fun _ => blockEnd_tidy tidy id frame.depth
    case step =>
      intro item _ _
      refine Hoare.bind (Triple.forIn _ _ fun h _ _ =>
        Hoare.bind (comments_tidy h frame.depth (tidy.leading h)) fun _ => Triple.stay _) fun _ => ?_
      exact Triple.bulleted frame.depth (by decide) (by decide)
        (nodes G (Nat.lt_succ_self G) item _ (by exact handles) True)
        (Triple.afterOut (fun _ => newline_settled)
          (Hoare.bind (Triple.stay ()) fun _ => Triple.stay _))

theorem explicitEntry_tidy (tidy : TidySource t c) (F key value : Nat) (frame : Frame)
    (handles : frame.tags.onOneLine = true) (contents : ∀ G < F, ContentsTidy t c claims G) :
    KeepsTidy (explicitEntry t c claims F key value frame) := by
  intro B
  cases F with
  | zero =>
    rw [explicitEntry]
    exact Triple.stay ()
  | succ G =>
    rw [explicitEntry]
    refine Hoare.bind (Triple.forIn _ _ ?step) fun _ => Triple.stay ()
    case step =>
      rintro ⟨indicator, n⟩ member _
      have marker : indicator ≠ "" ∧ TidyPiece indicator.toList := by
        simp only [List.mem_cons, Prod.mk.injEq, List.not_mem_nil, or_false] at member
        rcases member with ⟨rfl, -⟩ | ⟨rfl, -⟩ <;> decide
      have part := Triple.bulleted (B := B) frame.depth marker.1 marker.2
        (contents G (Nat.lt_succ_self G) n { frame with depth := frame.depth + 1 } handles True)
        (Triple.stay (ForInStep.yield PUnit.unit))
      refine Triple.afterOut (fun _ => newline_settled) ?_
      exact Hoare.ite (fun _ => Hoare.bind (comments_tidy n frame.depth (tidy.leading n))
        fun _ => part) fun _ => part

theorem mappingValue_tidy (F value : Nat) (frame : Frame) (handles : frame.tags.onOneLine = true)
    (nodes : ∀ G < F, NodesTidy t c claims G) :
    KeepsTidy (mappingValue t c claims F value frame) := by
  intro B
  cases F with
  | zero =>
    rw [mappingValue]
    exact Triple.stay ()
  | succ G =>
    rw [mappingValue]
    have below := nodes G (Nat.lt_succ_self G) value
    exact Triple.afterLookup t value (Hoare.ite (fun _ => below frame handles B) fun _ =>
      Hoare.ite (fun _ => Triple.afterOut (fun _ => newline_settled) (below _ (by exact handles) B))
        fun _ => below _ (by exact handles) B)

theorem blockMapping_tidy (tidy : TidySource t c) (F id : Nat) (kids : List Nat) (frame : Frame)
    (handles : frame.tags.onOneLine = true) (nodes : ∀ G < F, NodesTidy t c claims G)
    (contents : ∀ G < F, ContentsTidy t c claims G) :
    KeepsTidy (blockMapping t c claims F id kids frame) := by
  intro B
  cases F with
  | zero =>
    rw [blockMapping]
    exact Triple.stay ()
  | succ G =>
    rw [blockMapping]
    refine Triple.afterOut (fun _ => newline_settled) ?_
    refine Hoare.bind (Triple.forIn _ _ ?step) fun _ => blockEnd_tidy tidy id frame.depth
    case step =>
      rintro ⟨key, value⟩ _ _
      have ending : Triple (Settled B)
          (Emit.out (·.newline) >>= fun _ => Pure.pure (ForInStep.yield PUnit.unit))
          fun _ => Settled B :=
        Triple.afterOut (fun _ => newline_settled) (Triple.stay _)
      refine Triple.afterLookup t key (Hoare.ite (fun _ => ?_) fun _ => ?_)
      · exact Hoare.bind (explicitEntry_tidy tidy G key value _ (by exact handles)
          (fun G' lower => contents G' (by omega)) B) fun _ => ending
      · -- The key, its `:`, and the value after it.
        refine Hoare.bind (nodes G (Nat.lt_succ_self G) key _ (by exact handles) B)
          fun _ => Triple.afterLookup t key ?_
        have value := Hoare.bind (mappingValue_tidy G value { frame with blockBase := frame.depth }
          handles (fun G' lower => nodes G' (by omega)) B) fun _ => ending
        exact Hoare.ite (fun _ => Triple.afterOut (fun _ => space_settled)
          (Triple.colon frame.depth value)) fun _ => Triple.colon frame.depth value

theorem content_succ_tidy (tidy : TidySource t c) (F id : Nat) (frame : Frame)
    (handles : frame.tags.onOneLine = true) (nodes : ∀ G < F, NodesTidy t c claims G)
    (contents : ∀ G < F, ContentsTidy t c claims G) :
    KeepsTidy (content t c claims (F + 1) id frame) := by
  intro B
  rw [content]
  refine Triple.afterLookup t id ?_
  cases found : t.kind? id with
  | none => exact Triple.stay ()
  | some k =>
    have texts := tidy.kinds id k found
    refine Triple.afterOut (fun _ => place_settled _)
      (Hoare.bind (properties_tidy texts frame handles) fun _ => ?_)
    cases k with
    | scalar s => exact scalar_tidy tidy frame (texts.value s rfl)
    | «alias» name =>
      have piece : TidyPiece ("*" ++ name).toList := by
        rw [String.toList_append]
        exact TidyPiece.append (by decide) (texts.aliasName name rfl)
      exact Triple.afterOut (fun _ => write_settled frame.depth piece) (inlineEnd_tidy tidy id frame)
    | mapping col =>
      exact Hoare.ite (fun _ => flowMapping_tidy tidy F id col.children frame handles nodes B)
        fun _ => blockMapping_tidy tidy F id col.children frame handles nodes contents B
    | sequence col =>
      exact Hoare.ite (fun _ => flowSequence_tidy tidy F id col.children frame handles nodes B)
        fun _ => blockSequence_tidy tidy F id col.children frame handles nodes B
    | document d => exact Hoare.throw trivial
    | stream docs => exact Hoare.throw trivial

theorem node_tidy (tidy : TidySource t c) (F : Nat) (contents : ∀ G < F, ContentsTidy t c claims G) :
    NodesTidy t c claims F := by
  intro id frame handles B
  cases F with
  | zero =>
    rw [node]
    exact Triple.stay ()
  | succ G =>
    rw [node]
    have rest := contents G (Nat.lt_succ_self G) id frame handles B
    exact Hoare.ite (fun _ => Hoare.bind (comments_tidy id frame.depth (tidy.leading id))
      fun _ => rest) fun _ => rest

/-- Whatever the fuel, the content of every node keeps the writer settled. -/
theorem content_tidy (tidy : TidySource t c) (F : Nat) : ContentsTidy t c claims F := by
  -- The induction is on the fuel: a node's content writes the nodes below it with less.
  induction F using Nat.strong_induction_on with
  | _ F ih =>
  intro id frame handles
  cases F with
  | zero =>
    intro B
    rw [content]
    exact Triple.stay ()
  | succ F =>
    have contents : ∀ G < F, ContentsTidy t c claims G := fun G lower => ih G (by omega)
    exact content_succ_tidy tidy F id frame handles
      (fun G lower => node_tidy tidy G fun G' lower' => contents G' (by omega)) contents

theorem documentStart_tidy (d : Document) (followsOpen : Bool)
    (directives : ∀ dir ∈ d.tagDirectives,
      '\n' ∉ dir.handle.toList ∧ dir.expansion ≠ "" ∧ TidyPiece dir.expansion.toList) :
    KeepsTidy (documentStart c d followsOpen) := by
  intro B
  rw [documentStart]
  refine Hoare.bind (Triple.forIn _ _ ?directive) fun _ => ?_
  case directive =>
    intro dir member _
    obtain ⟨handle, filled, prefixPiece⟩ := directives dir member
    -- The prefix ends the line: it is not empty and ends in no blank.
    have piece : TidyPiece ("%TAG " ++ dir.handle ++ " " ++ dir.expansion).toList := by
      simp only [String.toList_append]
      exact prefixPiece.after (by simpa using handle) (by simpa using filled)
    exact Triple.afterOut (fun _ => newline_settled) (Triple.afterOut
      (fun _ => write_settled 0 piece) (Hoare.bind (Triple.out fun _ => newline_settled)
        fun _ => Triple.stay _))
  exact Hoare.ite (fun _ => Triple.afterOut (fun _ => newline_settled)
    (Triple.afterOut (fun _ => write_settled 0 (by decide))
      (Hoare.ite (fun _ => Triple.out fun _ => space_settled)
        fun _ => Triple.out fun _ => newline_settled))) fun _ => Triple.stay ()

theorem document_tidy (tidy : TidySource t c) (fuel id : Nat) {d : Document}
    (found : t.kind? id = some (.document d)) (followsOpen nextHasDirectives : Bool) :
    Triple (Settled B) (document t c claims fuel id d followsOpen nextHasDirectives)
      fun _ => Settled B := by
  have directives := (tidy.kinds id _ found).directives d rfl
  have handles := TagScope.forDocument_onOneLine fun dir member => (directives dir member).1
  rw [document]
  refine Hoare.bind (comments_tidy id 0 (tidy.leading id)) fun _ => ?_
  refine Hoare.bind (documentStart_tidy d followsOpen directives B) fun _ => ?_
  refine Hoare.bind (node_tidy tidy fuel (fun G _ => content_tidy tidy G) d.root _ (by exact handles) B)
    fun _ => ?_
  refine Triple.afterOut (fun _ => newline_settled) ?_
  dsimp only
  have closing := Hoare.bind (comments_tidy (B := B) id 0 (tidy.trailing id))
    fun _ => Triple.stay (!d.implicitEnd || nextHasDirectives)
  exact Hoare.ite (fun _ => Triple.afterOut (fun _ => write_settled 0 (by decide))
    (Triple.afterOut (fun _ => newline_settled) closing)) fun _ => closing

theorem stream_tidy (tidy : TidySource t c) (fuel id : Nat) (docs : List Nat) :
    Triple (Settled B) (stream t c claims fuel id docs) fun _ => Settled B := by
  rw [stream]
  refine Hoare.bind (comments_tidy id 0 (tidy.leading id)) fun _ => ?_
  refine Hoare.bind (Triple.forIn _ _ ?step) fun _ => comments_tidy id 0 (tidy.trailing id)
  case step =>
    rintro ⟨docId, i⟩ _ followsOpen
    dsimp only
    refine Triple.afterLookup t docId ?_
    split
    · rename_i d found
      exact Hoare.bind (nextHasDirectives_stays t _) fun _ =>
        Hoare.bind (document_tidy tidy fuel docId found _ _) fun _ => Triple.stay _
    · exact Hoare.throw trivial

theorem root_tidy (tidy : TidySource t c) (fuel id : Nat) :
    Triple (Settled B) (root t c claims fuel id) fun _ => Settled B := by
  unfold root
  refine Triple.afterLookup t id ?_
  split
  · exact stream_tidy tidy fuel id _
  · rename_i d found
    exact Hoare.bind (document_tidy tidy fuel id found false false) fun _ => Triple.stay ()
  · exact Hoare.bind (node_tidy tidy fuel (fun G _ => content_tidy tidy G) id _ (by decide) B)
      fun _ => Triple.out fun _ => newline_settled

end

end Emit

/-- A tree written from a fresh writer leaves the writer tidy, with its cursor away from any
bullet. -/
theorem AnnotatedTree.write_settled {a : AnnotatedTree} {indent : IndentWidth}
    (tidy : a.TidyTexts) {w : LineWriter} (written : a.write indent = .ok w) :
    w.Settled False := by
  unfold AnnotatedTree.write at written
  split at written
  · cases written
    exact LineWriter.settled_start _
  · rename_i r _
    dsimp only at written
    split at written
    · rename_i ran
      cases written
      exact (Emit.root_tidy tidy.source _ r).ok_of (LineWriter.settled_start _) ran
    · cases written

/-- No stray blanks: when no comment ends in a blank, no anchor or alias name holds a line
break or ends in a blank, no tag or tag handle holds a line break, every tag prefix is a
non-empty text without a line break that ends in no blank, and no line of a scalar's value
ends in a blank, the text written is made of lines, each ended by a line break; no line ends
in a space or a tab, none is made of spaces only, and every empty line is a body line of a
block scalar, numbered as the writer records it. -/
theorem render_leaves_no_stray_blanks (a : AnnotatedTree) (indent : IndentWidth)
    (tidy : a.TidyTexts) {text : String} (rendered : a.render indent = .ok text) :
    ∃ (w : LineWriter) (lines : List (List Char)), a.write indent = .ok w ∧
      text.toList = lines.flatMap (· ++ ['\n']) ∧
      (∀ l ∈ lines, '\n' ∉ l) ∧
      ∀ k l, lines[k]? = some l →
        endsBlank l = false ∧ (l.all (· == ' ') = true → l = []) ∧ (l = [] → k ∈ w.bodyLines) := by
  obtain ⟨w, written, rfl⟩ : ∃ w, a.write indent = .ok w ∧ w.finish = text := by
    unfold AnnotatedTree.render at rendered
    cases written : a.write indent with
    | error e =>
      rw [written] at rendered
      cases rendered
    | ok w =>
      rw [written] at rendered
      exact ⟨w, rfl, Except.ok.inj rendered⟩
  obtain ⟨⟨done, cur, shape⟩, away⟩ := AnnotatedTree.write_settled tidy written
  obtain ⟨lines, whole, unbroken, tidyLines⟩ := shape.finish_lines fun atBullet => away atBullet
  refine ⟨w, lines, written, whole, unbroken, fun k l found => ?_⟩
  obtain ⟨ends, empty⟩ := tidyLines k l found
  exact ⟨ends, eq_nil_of_all_spaces ends, empty⟩

/-- A literal block scalar with an empty body line, under a comment. -/
def blockSample : AnnotatedTree :=
  ⟨⟨#[{ kind := .scalar { value := "a\n\nb\n", style := .literal } }], by decide⟩,
    { slots := #[{ leading := ["# top"] }] }⟩

theorem blockSample_tidy : blockSample.TidyTexts where
  comments x member := by
    have all : blockSample.comments.all = ["# top"] := rfl
    rw [all, List.mem_singleton] at member
    subst member
    decide
  nodes n member := by
    have nodes : blockSample.tree.nodes.toList =
        [{ kind := .scalar { value := "a\n\nb\n", style := .literal } }] := rfl
    rw [nodes, List.mem_singleton] at member
    subst member
    refine ⟨fun _ none => (by cases none), fun _ none => (by cases none),
      fun _ named => (by cases named), fun s scalar => ?_, fun _ doc => (by cases doc)⟩
    cases scalar
    decide

/-- The empty line between the two body lines is the fourth line, numbered three. -/
theorem blockSample_lines_tidy :
    ∃ (w : LineWriter) (lines : List (List Char)), blockSample.write IndentWidth.standard = .ok w ∧
      "# top\n|\n  a\n\n  b\n".toList = lines.flatMap (· ++ ['\n']) ∧
      (∀ l ∈ lines, '\n' ∉ l) ∧
      ∀ k l, lines[k]? = some l →
        endsBlank l = false ∧ (l.all (· == ' ') = true → l = []) ∧ (l = [] → k ∈ w.bodyLines) :=
  render_leaves_no_stray_blanks blockSample IndentWidth.standard blockSample_tidy
    (by decide +kernel)

/-- A document whose one tag directive has an empty prefix. -/
def emptyPrefixSample : AnnotatedTree :=
  AnnotatedTree.bare ⟨#[{ kind := .scalar { value := "a" } },
    { kind := .document { root := 0, tagDirectives := [⟨"!e!", ""⟩] } }], by decide⟩

/-- The blank between handle and prefix stays at the end of the directive line when the
prefix is empty. -/
theorem emptyPrefix_leaves_trailing_blank :
    emptyPrefixSample.render IndentWidth.standard = .ok "%TAG !e! \n--- a\n" := by
  decide +kernel

/-- A scalar whose tag holds a blank and then a line break. -/
def brokenTagSample : AnnotatedTree :=
  AnnotatedTree.bare ⟨#[{ kind := .scalar { value := "a", tag := some "x \ny" } }], by decide⟩

theorem brokenTag_leaves_trailing_blank :
    brokenTagSample.render IndentWidth.standard = .ok "!<x \ny> a\n" := by
  decide +kernel

end AnnotatedYaml
