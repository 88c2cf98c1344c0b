import AnnotatedYaml.Layout.Tags
import Mathlib

/-! Tags written in short form read back as themselves under the handles of their document. -/

namespace AnnotatedYaml

/-! ### Bytes of a text -/

theorem byteArray_toList_loop (bs : ByteArray) (i : Nat) (r : List UInt8) :
    ByteArray.toList.loop bs i r = r.reverse ++ bs.data.toList.drop i := by
  fun_induction ByteArray.toList.loop bs i r with
  | case1 i r inside ih =>
    have bound : i < bs.data.toList.length := by simpa using inside
    rw [ih, List.drop_eq_getElem_cons bound]
    simp [ByteArray.get!, inside]
  | case2 i r outside =>
    rw [List.drop_eq_nil_of_le (by simpa using Nat.le_of_not_lt outside)]
    simp

theorem toUTF8_toList (s : String) : s.toUTF8.toList = s.toList.flatMap String.utf8EncodeChar := by
  rw [ByteArray.toList, byteArray_toList_loop, String.toUTF8_eq_toByteArray,
    ← String.utf8Encode_toList, List.utf8Encode, List.toList_data_toByteArray]
  simp

theorem utf8EncodeChar_of_lt {c : Char} (ascii : c.toNat < 128) :
    String.utf8EncodeChar c = [c.toUInt8] := by
  have size : c.utf8Size = 1 := by
    rw [Char.utf8Size_eq_one_iff, UInt32.le_iff_toNat_le]
    exact Nat.le_of_lt_succ ascii
  rw [String.utf8EncodeChar_eq_singleton size, Char.toUInt8]

namespace TagScope

/-! ### The scope of a document -/

/-- One `%TAG` directive applied to a scope: a known handle takes the directive's prefix, a new
one is added at the end. -/
def declare (s : TagScope) (d : TagDirective) : TagScope :=
  if s.handles.any (·.1 == d.handle) then
    ⟨s.handles.map fun p => if p.1 == d.handle then (p.1, d.expansion) else p⟩
  else ⟨s.handles ++ [(d.handle, d.expansion)]⟩

theorem forDocument_eq_foldl (ds : List TagDirective) :
    forDocument ds = ds.foldl declare standard := rfl

/-- The prefix the directives give handle `h`: that of the last directive for it. -/
def directivePrefix (ds : List TagDirective) (h : String) : Option String :=
  ((ds.filter (·.handle == h)).getLast?).map (·.expansion)

theorem directivePrefix_nil (h : String) : directivePrefix [] h = none := rfl

theorem directivePrefix_cons (d : TagDirective) (ds : List TagDirective) (h : String) :
    directivePrefix (d :: ds) h =
      (directivePrefix ds h).or (if d.handle = h then some d.expansion else none) := by
  unfold directivePrefix
  by_cases named : d.handle = h
  · cases last : (ds.filter (·.handle == h)).getLast? <;> simp [named, last, List.getLast?_cons]
  · simp [named]

theorem lookup_cons_of_ne {a h : String} (b : String) (l : List (String × String))
    (differs : h ≠ a) :
    ((a, b) :: l).lookup h = l.lookup h := by
  rw [List.lookup, beq_false_of_ne differs]

theorem lookup_override (l : List (String × String)) (k v h : String) :
    (l.map fun p => if p.1 == k then (p.1, v) else p).lookup h =
      if h = k ∧ (l.lookup h).isSome then some v else l.lookup h := by
  induction l with
  | nil => simp
  | cons x l ih =>
    obtain ⟨a, b⟩ := x
    by_cases same : h = a
    · subst same
      by_cases key : h = k <;> simp [key]
    · rw [List.map_cons, lookup_cons_of_ne _ _ same]
      dsimp only
      split <;> rw [lookup_cons_of_ne _ _ same, ih]

theorem lookup_declare (s : TagScope) (d : TagDirective) (h : String) :
    (s.declare d).handles.lookup h =
      if d.handle = h then some d.expansion else s.handles.lookup h := by
  unfold declare
  split
  · rename_i known
    have found : (s.handles.lookup d.handle).isSome := by
      obtain ⟨e, member, same⟩ := List.any_eq_true.mp known
      exact List.lookup_isSome_iff.mpr ⟨e, member, beq_iff_eq.mpr (beq_iff_eq.mp same).symm⟩
    rw [lookup_override]
    by_cases named : d.handle = h
    · rw [if_pos ⟨named.symm, named ▸ found⟩, if_pos named]
    · rw [if_neg fun both => named both.1.symm, if_neg named]
  · rename_i unknown
    have absent : s.handles.lookup d.handle = none := by
      simp only [List.any_eq_true, beq_iff_eq, not_exists, not_and] at unknown
      exact List.lookup_eq_none_iff.mpr fun e member =>
        bne_iff_ne.mpr fun same => unknown e member same.symm
    rw [List.lookup_append, List.lookup_singleton]
    by_cases named : d.handle = h
    · rw [if_pos named, ← named, absent, beq_self_eq_true, if_pos rfl]
      rfl
    · rw [if_neg named, beq_false_of_ne (Ne.symm named)]
      simp

theorem keys_nodup_declare {s : TagScope} (d : TagDirective)
    (keys : (s.handles.map Prod.fst).Nodup) :
    ((s.declare d).handles.map Prod.fst).Nodup := by
  unfold declare
  split
  · -- overriding a prefix keeps every key in place
    rw [List.map_map]
    convert keys using 2
    funext x
    dsimp only [Function.comp]
    split <;> rfl
  · rename_i unknown
    simp only [List.any_eq_true, beq_iff_eq, not_exists, not_and] at unknown
    rw [List.map_append, List.nodup_append]
    refine ⟨keys, by simp, ?_⟩
    intro a inKeys b added
    obtain ⟨e, member, rfl⟩ := List.mem_map.mp inKeys
    have named : b = d.handle := by simpa using added
    subst named
    exact unknown e member

/-- Directives applied in order: a handle's prefix is that of its last directive, and the
scope's own prefix for handles no directive names. -/
theorem lookup_foldl_declare (ds : List TagDirective) (s : TagScope) (h : String) :
    (ds.foldl declare s).handles.lookup h = (directivePrefix ds h).or (s.handles.lookup h) := by
  induction ds generalizing s with
  | nil => simp [directivePrefix_nil]
  | cons d ds ih =>
    rw [List.foldl_cons, ih, lookup_declare, directivePrefix_cons, Option.or_assoc]
    by_cases named : d.handle = h <;> simp [named]

theorem keys_nodup_foldl_declare (ds : List TagDirective) {s : TagScope}
    (keys : (s.handles.map Prod.fst).Nodup) :
    ((ds.foldl declare s).handles.map Prod.fst).Nodup := by
  induction ds generalizing s with
  | nil => exact keys
  | cons d ds ih => exact ih (keys_nodup_declare d keys)

theorem mem_iff_lookup {l : List (String × String)} (keys : (l.map Prod.fst).Nodup) (h p : String) :
    (h, p) ∈ l ↔ l.lookup h = some p := by
  induction l with
  | nil => simp
  | cons x l ih =>
    obtain ⟨a, b⟩ := x
    simp only [List.map_cons, List.nodup_cons, List.mem_map] at keys
    by_cases same : h = a
    · subst same
      have absent : (h, p) ∉ l := fun member => keys.1 ⟨(h, p), member, rfl⟩
      simp [absent, eq_comm]
    · have differs : (h == a) = false := by simpa using same
      simp [List.lookup_cons, differs, same, ih keys.2]

/-- The scope of a document holds each handle once, with the prefix of the last directive that
names it, or the standard prefix. -/
theorem forDocument_handles (ds : List TagDirective) :
    ((forDocument ds).handles.map Prod.fst).Nodup ∧
      ∀ h p, (h, p) ∈ (forDocument ds).handles ↔
        (directivePrefix ds h).or (standard.handles.lookup h) = some p := by
  have keys : ((forDocument ds).handles.map Prod.fst).Nodup :=
    keys_nodup_foldl_declare ds (by decide)
  refine ⟨keys, fun h p => ?_⟩
  rw [mem_iff_lookup keys, forDocument_eq_foldl, lookup_foldl_declare]

/-! ### Valid suffixes -/

/-- Characters a tag suffix may hold besides `%` escapes: ASCII letters and digits and the
marks `-;/?:@&=+$_.~*'()`. -/
def isSuffixChar (c : Char) : Bool :=
  c.isAlphanum || "-;/?:@&=+$_.~*'()".toList.contains c

def isHexChar (c : Char) : Bool :=
  c.isDigit || ('a' ≤ c && c ≤ 'f') || ('A' ≤ c && c ≤ 'F')

/-- Suffix characters and `%` escapes of two hexadecimal digits, up to the end. -/
def suffixChars : List Char → Bool
  | [] => true
  | '%' :: a :: b :: rest => isHexChar a && isHexChar b && suffixChars rest
  | '%' :: _ => false
  | c :: rest => isSuffixChar c && suffixChars rest

theorem isSuffixByte_ascii {c : Char} (ascii : c.toNat < 128) :
    isSuffixByte c.toUInt8 = isSuffixChar c := by
  have table : ∀ n < 128, isSuffixByte (Char.ofNat n).toUInt8 = isSuffixChar (Char.ofNat n) := by
    decide +kernel
  simpa [Char.ofNat_toNat] using table c.toNat ascii

theorem isHexByte_ascii {c : Char} (ascii : c.toNat < 128) : isHexByte c.toUInt8 = isHexChar c := by
  have table : ∀ n < 128, isHexByte (Char.ofNat n).toUInt8 = isHexChar (Char.ofNat n) := by
    decide +kernel
  simpa [Char.ofNat_toNat] using table c.toNat ascii

theorem isSuffixByte_of_ge {b : UInt8} (wide : 128 ≤ b.toNat) : isSuffixByte b = false := by
  have table : ∀ n < 256, 128 ≤ n → isSuffixByte (UInt8.ofNat n) = false := by decide +kernel
  simpa [UInt8.ofNat_toNat] using table b.toNat b.toNat_lt wide

theorem isHexByte_of_ge {b : UInt8} (wide : 128 ≤ b.toNat) : isHexByte b = false := by
  simp only [isHexByte, UInt8.le_iff_toNat_le, Bool.or_eq_false_iff, Bool.and_eq_false_iff,
    decide_eq_false_iff_not]
  simp only [UInt8.reduceToNat]
  omega

theorem isSuffixChar_of_ge {c : Char} (wide : 128 ≤ c.toNat) : isSuffixChar c = false := by
  have marks : ("-;/?:@&=+$_.~*'()".toList.all fun d => decide (d.toNat < 128)) = true := by
    decide +kernel
  have unmarked : c ∉ "-;/?:@&=+$_.~*'()".toList := fun member => by
    have := List.all_eq_true.mp marks c member
    simp only [decide_eq_true_eq] at this
    omega
  simp only [isSuffixChar, Bool.or_eq_false_iff]
  refine ⟨?_, by simpa using unmarked⟩
  have same : c.toNat = c.val.toNat := rfl
  simp [Char.isAlphanum, Char.isAlpha, Char.isUpper, Char.isLower, Char.isDigit,
    UInt32.le_iff_toNat_le]
  omega

theorem isHexChar_of_ge {c : Char} (wide : 128 ≤ c.toNat) : isHexChar c = false := by
  have same : c.toNat = c.val.toNat := rfl
  simp [isHexChar, Char.isDigit, Char.le_def, UInt32.le_iff_toNat_le]
  omega

theorem utf8EncodeChar_of_ge {c : Char} (wide : 128 ≤ c.toNat) :
    ∃ b₁ b₂ bs, String.utf8EncodeChar c = b₁ :: b₂ :: bs ∧ 192 ≤ b₁.toNat := by
  rcases Char.utf8Size_eq c with one | two | three | four
  · rw [Char.utf8Size_eq_one_iff, UInt32.le_iff_toNat_le] at one
    have bound : (127 : UInt32).toNat = 127 := rfl
    have same : c.toNat = c.val.toNat := rfl
    omega
  · rw [String.utf8EncodeChar_eq_cons_cons two]
    exact ⟨_, _, [], rfl, by rw [UInt8.toNat_or]; exact Nat.right_le_or⟩
  · rw [String.utf8EncodeChar_eq_cons_cons_cons three]
    refine ⟨_, _, [_], rfl, ?_⟩
    have lead := @Nat.right_le_or ((c.val >>> 12).toUInt8 &&& 0x0f).toNat (0xe0 : UInt8).toNat
    rw [UInt8.toNat_or]
    simp at lead ⊢
    omega
  · rw [String.utf8EncodeChar_eq_cons_cons_cons_cons four]
    refine ⟨_, _, [_, _], rfl, ?_⟩
    have lead := @Nat.right_le_or ((c.val >>> 18).toUInt8 &&& 0x07).toNat (0xf0 : UInt8).toNat
    rw [UInt8.toNat_or]
    simp at lead ⊢
    omega

theorem go_utf8 :
    ∀ cs : List Char, isSuffix.go (cs.flatMap String.utf8EncodeChar) = suffixChars cs := by
  have percent : String.utf8EncodeChar '%' = [37] := by decide
  intro cs
  induction cs using suffixChars.induct with
  | case1 => rfl
  | case2 a b rest ih =>
    rw [List.flatMap_cons, List.flatMap_cons, List.flatMap_cons, percent, suffixChars]
    by_cases wideA : 128 ≤ a.toNat
    · obtain ⟨a₁, a₂, as, spelled, lead⟩ := utf8EncodeChar_of_ge wideA
      simp [spelled, isSuffix.go, isHexByte_of_ge (Nat.le_trans (by decide) lead),
        isHexChar_of_ge wideA]
    · rw [utf8EncodeChar_of_lt (by omega)]
      by_cases wideB : 128 ≤ b.toNat
      · obtain ⟨b₁, b₂, bs, spelled, lead⟩ := utf8EncodeChar_of_ge wideB
        simp [spelled, isSuffix.go, isHexByte_of_ge (Nat.le_trans (by decide) lead),
          isHexChar_of_ge wideB]
      · rw [utf8EncodeChar_of_lt (by omega)]
        simp [isSuffix.go, ih, isHexByte_ascii (show a.toNat < 128 by omega),
          isHexByte_ascii (show b.toNat < 128 by omega)]
  | case3 tail short =>
    rw [List.flatMap_cons, percent]
    rcases tail with _ | ⟨a, _ | ⟨b, rest⟩⟩
    · rfl
    · by_cases wideA : 128 ≤ a.toNat
      · obtain ⟨a₁, a₂, as, spelled, lead⟩ := utf8EncodeChar_of_ge wideA
        simp [spelled, suffixChars, isSuffix.go, isHexByte_of_ge (Nat.le_trans (by decide) lead)]
      · rw [List.flatMap_cons, utf8EncodeChar_of_lt (by omega)]
        simp [suffixChars, isSuffix.go]
    · exact absurd rfl (short a b rest)
  | case4 c rest notEscape notPercent ih =>
    rw [List.flatMap_cons, suffixChars.eq_4 c rest notEscape notPercent, ← ih]
    by_cases wide : 128 ≤ c.toNat
    · obtain ⟨c₁, c₂, cs, spelled, lead⟩ := utf8EncodeChar_of_ge wide
      have notEscapeByte : c₁ ≠ 37 := fun same => by rw [same] at lead; simp at lead
      simp [spelled, isSuffix.go, notEscapeByte, isSuffixByte_of_ge (Nat.le_trans (by decide) lead),
        isSuffixChar_of_ge wide]
    · rw [utf8EncodeChar_of_lt (by omega)]
      have table : ∀ n < 128, (Char.ofNat n).toUInt8 = 37 → Char.ofNat n = '%' := by decide +kernel
      have notEscapeByte : c.toUInt8 ≠ 37 := fun same =>
        notPercent
          (by simpa [Char.ofNat_toNat] using table c.toNat (by omega) (by simpa using same))
      simp [isSuffix.go, notEscapeByte, isSuffixByte_ascii (show c.toNat < 128 by omega)]

/-- A valid tag suffix, read as characters: not empty, made of ASCII letters and digits, the
marks `-;/?:@&=+$_.~*'()`, and `%` escapes of two hexadecimal digits. -/
theorem isSuffix_iff (x : String) : isSuffix x = true ↔ x ≠ "" ∧ suffixChars x.toList = true := by
  rw [isSuffix, toUTF8_toList, go_utf8, Bool.and_eq_true, Bool.not_eq_true',
    String.isEmpty_eq_false_iff]

theorem suffixChars_mem : ∀ cs : List Char, suffixChars cs = true →
    ∀ c ∈ cs, c = '%' ∨ isHexChar c = true ∨ isSuffixChar c = true := by
  intro cs
  induction cs using suffixChars.induct with
  | case1 => simp
  | case2 a b rest ih =>
    intro valid
    simp only [suffixChars, Bool.and_eq_true] at valid
    rintro x (_ | ⟨_, _ | ⟨_, _ | ⟨_, member⟩⟩⟩)
    · exact .inl rfl
    · exact .inr (.inl valid.1.1)
    · exact .inr (.inl valid.1.2)
    · exact ih valid.2 x member
  | case3 tail short =>
    intro valid
    rcases tail with _ | ⟨a, _ | ⟨b, rest⟩⟩
    · simp [suffixChars] at valid
    · simp [suffixChars] at valid
    · exact absurd rfl (short a b rest)
  | case4 c rest notEscape notPercent ih =>
    intro valid
    rw [suffixChars.eq_4 c rest notEscape notPercent, Bool.and_eq_true] at valid
    rintro x (_ | ⟨_, member⟩)
    · exact .inr (.inr valid.1)
    · exact ih valid.2 x member

theorem isSuffix_no_marks {x : String} (valid : isSuffix x = true) :
    '!' ∉ x.toList ∧ '<' ∉ x.toList := by
  have chars := suffixChars_mem _ ((isSuffix_iff x).mp valid).2
  refine ⟨fun member => ?_, fun member => ?_⟩
  · have allowed := chars '!' member
    revert allowed
    decide +kernel
  · have allowed := chars '<' member
    revert allowed
    decide +kernel

/-! ### Writing a tag -/

theorem foldl_largest {β : Type} (key : β → Nat) {g : Option β → β → Option β}
    (step : ∀ acc y, g acc y = if acc.all (key · ≤ key y) then some y else acc) :
    ∀ (xs : List β) (acc : Option β) (b : β), xs.foldl g acc = some b →
      (acc = some b ∨ b ∈ xs) ∧ (∀ a, acc = some a → key a ≤ key b) ∧ ∀ y ∈ xs, key y ≤ key b
  | [], acc, b, last => by
    subst last
    exact ⟨.inl rfl, fun a same => by cases same; exact Nat.le_refl _, by simp⟩
  | y :: ys, acc, b, last => by
    obtain ⟨came, before, rest⟩ := foldl_largest key step ys (g acc y) b last
    rw [step] at came before
    by_cases larger : acc.all (key · ≤ key y)
    · rw [if_pos larger] at came before
      have bound : key y ≤ key b := before y rfl
      refine ⟨?_, fun a held => ?_, ?_⟩
      · rcases came with taken | later
        · cases taken
          exact .inr List.mem_cons_self
        · exact .inr (List.mem_cons_of_mem y later)
      · have below : key a ≤ key y := by simpa [held] using larger
        exact Nat.le_trans below bound
      · simpa [bound] using rest
    · rw [if_neg larger] at came before
      obtain ⟨a, rfl⟩ : ∃ a, acc = some a := by
        cases acc with
        | none => simp at larger
        | some a => exact ⟨a, rfl⟩
      have above : key y ≤ key a := by simp at larger; omega
      have bound : key a ≤ key b := before a rfl
      refine ⟨?_, fun a' held => ?_, ?_⟩
      · rcases came with kept | later
        · exact .inl kept
        · exact .inr (List.mem_cons_of_mem y later)
      · cases held
        exact bound
      · simpa [Nat.le_trans above bound] using rest

theorem foldl_eq_none {β : Type} {g : Option β → β → Option β}
    (step : ∀ acc y, ∃ z, g acc y = some z) :
    ∀ (xs : List β) (acc : Option β), xs.foldl g acc = none → acc = none ∧ xs = []
  | [], acc, last => ⟨last, rfl⟩
  | y :: ys, acc, last => by
    obtain ⟨z, taken⟩ := step acc y
    have := (foldl_eq_none step ys (g acc y) last).1
    rw [taken] at this
    cases this

theorem render_cases (scope : TagScope) {tag : String} (notBang : tag ≠ "!") :
    (∃ h e, (h, e) ∈ scope.handles ∧ tag.startsWith e = true ∧
        isSuffix (String.ofList (tag.toList.drop e.length)) = true ∧
        scope.render tag = h ++ String.ofList (tag.toList.drop e.length) ∧
        ∀ h' e', (h', e') ∈ scope.handles → tag.startsWith e' = true →
          isSuffix (String.ofList (tag.toList.drop e'.length)) = true →
          e'.utf8ByteSize ≤ e.utf8ByteSize) ∨
      ((∀ h e, (h, e) ∈ scope.handles → tag.startsWith e = true →
          isSuffix (String.ofList (tag.toList.drop e.length)) = false) ∧
        scope.render tag = "!<" ++ tag ++ ">") := by
  have differs : (tag == "!") = false := beq_false_of_ne notBang
  unfold render
  rw [if_neg (by simp [differs])]
  dsimp only
  split
  · rename_i best h size suffix chosen
    obtain ⟨came, -, largest⟩ := foldl_largest (·.2.1) (fun acc y => by
      cases acc with
      | none => rfl
      | some z =>
        dsimp only [Option.all]
        by_cases larger : z.2.1 ≤ y.2.1
        · rw [if_pos larger, if_pos (by simpa using larger)]
        · rw [if_neg larger, if_neg (by simpa using larger)]) _ none _ chosen
    obtain ⟨⟨h', e⟩, inScope, fits⟩ := List.mem_filterMap.mp (came.resolve_left (by simp))
    dsimp only at fits
    split at fits
    · rename_i starts
      split at fits
      · rename_i valid
        simp only [Option.some.injEq, Prod.mk.injEq] at fits
        obtain ⟨rfl, rfl, rfl⟩ := fits
        refine .inl ⟨h', e, inScope, starts, valid, rfl, fun h'' e' other starts' valid' => ?_⟩
        apply largest (h'', e'.utf8ByteSize, String.ofList (tag.toList.drop e'.length))
        refine List.mem_filterMap.mpr ⟨(h'', e'), other, ?_⟩
        dsimp only
        rw [if_pos starts', if_pos valid']
      · cases fits
    · cases fits
  · rename_i best chosen
    have empty := (foldl_eq_none (fun acc y => by
      cases acc with
      | none => exact ⟨y, rfl⟩
      | some z =>
        dsimp only
        split
        · exact ⟨y, rfl⟩
        · exact ⟨z, rfl⟩) _ none chosen).2
    refine .inr ⟨fun h e inScope starts => ?_, rfl⟩
    have dropped := List.filterMap_eq_nil_iff.mp empty (h, e) inScope
    dsimp only at dropped
    rw [if_pos starts] at dropped
    split at dropped
    · cases dropped
    · rename_i invalid
      simpa using invalid

theorem render_bang (scope : TagScope) : scope.render "!" = "!" := by
  simp [render]

/-- `t` is the prefix `p` of handle `h` followed by a valid suffix `x`. -/
def Fits (scope : TagScope) (t h p x : String) : Prop :=
  (h, p) ∈ scope.handles ∧ t = p ++ x ∧ isSuffix x = true

/-- `s` writes `t` as a handle whose prefix is the longest that leaves a valid suffix, followed
by that suffix. -/
def IsShorthand (scope : TagScope) (t s : String) : Prop :=
  ∃ h p x, scope.Fits t h p x ∧ s = h ++ x ∧
    ∀ h' p' x', scope.Fits t h' p' x' → p'.length ≤ p.length

theorem eq_append_iff {t p x : String} :
    t = p ++ x ↔ t.startsWith p = true ∧ x = String.ofList (t.toList.drop p.length) := by
  constructor
  · rintro rfl
    refine ⟨by simp [String.startsWith_string_iff], ?_⟩
    rw [String.toList_append, ← String.length_toList, List.drop_left, String.ofList_toList]
  · rintro ⟨starts, rfl⟩
    apply String.toList_injective
    have split := List.prefix_iff_eq_append.mp (String.startsWith_string_iff.mp starts)
    rw [String.length_toList] at split
    rw [String.toList_append, String.toList_ofList, split]

theorem length_le_of_utf8ByteSize_le {t p p' x x' : String} (split : t = p ++ x)
    (split' : t = p' ++ x') (size : p'.utf8ByteSize ≤ p.utf8ByteSize) : p'.length ≤ p.length := by
  by_contra longer
  have within : p.toList <+: t.toList := by simp [split]
  have within' : p'.toList <+: t.toList := by simp [split']
  obtain ⟨q, grows⟩ := List.prefix_of_prefix_length_le within within'
    (by simp only [String.length_toList]; omega)
  have grown : p' = p ++ String.ofList q := by
    apply String.toList_injective
    rw [String.toList_append, String.toList_ofList, grows]
  have added : String.ofList q ≠ "" := by
    intro empty
    rw [empty, String.append_empty] at grown
    rw [grown] at longer
    exact longer (Nat.le_refl _)
  have positive : 0 < (String.ofList q).utf8ByteSize :=
    Nat.pos_of_ne_zero fun zero => added (String.utf8ByteSize_eq_zero_iff.mp zero)
  rw [grown, String.utf8ByteSize_append] at size
  omega

/-- What `render` writes for a tag other than `!`: its shorthand, or the tag verbatim when no
handle leaves a valid suffix. -/
theorem render_spec (scope : TagScope) {t : String} (notBang : t ≠ "!") :
    scope.IsShorthand t (scope.render t) ∨
      ((∀ h p x, ¬ scope.Fits t h p x) ∧ scope.render t = "!<" ++ t ++ ">") := by
  rcases render_cases scope notBang with ⟨h, e, inScope, starts, valid, written, longest⟩ |
    ⟨none, written⟩
  · have split : t = e ++ String.ofList (t.toList.drop e.length) := eq_append_iff.mpr ⟨starts, rfl⟩
    refine .inl ⟨h, e, _, ⟨inScope, split, valid⟩, written, fun h' p' x' fits => ?_⟩
    obtain ⟨inScope', split', valid'⟩ := fits
    obtain ⟨starts', rest⟩ := eq_append_iff.mp split'
    rw [rest] at valid'
    exact length_le_of_utf8ByteSize_le split split' (longest h' p' inScope' starts' valid')
  · refine .inr ⟨fun h p x fits => ?_, written⟩
    obtain ⟨inScope, split, valid⟩ := fits
    obtain ⟨starts, rfl⟩ := eq_append_iff.mp split
    rw [none h p inScope starts] at valid
    cases valid

/-! ### Reading a tag back -/

/-- The body of a verbatim tag `!<…>`, when `cs` is written that way. -/
def verbatimBody (cs : List Char) : Option (List Char) :=
  if ['!', '<'] <+: cs ∧ cs.getLast? = some '>' then some ((cs.drop 2).dropLast) else none

/-- `cs` cut after its last `!`: the part up to and with that `!`, and the rest. -/
def cutAfterLastBang (cs : List Char) : List Char × List Char :=
  ((cs.reverse.dropWhile (· != '!')).reverse, (cs.reverse.takeWhile (· != '!')).reverse)

/-- Reads a written tag back under `scope`: `!<u>` gives `u`; any other form is cut after its
last `!`, and the prefix of the handle before the cut is put in front of the rest. -/
def expand (scope : TagScope) (s : String) : Option String :=
  ((verbatimBody s.toList).map String.ofList).or
    (let cut := cutAfterLastBang s.toList
     if cut.1 = [] then none
     else (scope.handles.lookup (String.ofList cut.1)).map (· ++ String.ofList cut.2))

def isWordChar (c : Char) : Bool := c.isAlphanum || c == '-'

/-- The shape of a tag handle: `!`, or `!`, a name of word characters and `!` (the name is
empty in `!!`). -/
def IsHandle (h : String) : Prop :=
  h = "!" ∨ ∃ name : List Char, (∀ c ∈ name, isWordChar c = true) ∧ h.toList = '!' :: name ++ ['!']

theorem IsHandle.ends_with_bang {h : String} (shaped : IsHandle h) :
    ∃ front, h.toList = front ++ ['!'] := by
  rcases shaped with rfl | ⟨name, -, spelled⟩
  · exact ⟨[], rfl⟩
  · exact ⟨'!' :: name, spelled⟩

theorem verbatimBody_wrap (cs : List Char) :
    verbatimBody (['!', '<'] ++ cs ++ ['>']) = some cs := by
  have opens : ['!', '<'] <+: ['!', '<'] ++ cs ++ ['>'] :=
    (List.prefix_append _ cs).trans (List.prefix_append _ _)
  unfold verbatimBody
  rw [if_pos ⟨opens, List.getLast?_concat⟩]
  simp

theorem verbatimBody_shorthand {h : String} {x : List Char} (shaped : IsHandle h)
    (open_ : '<' ∉ x) :
    verbatimBody (h.toList ++ x) = none := by
  have second : ∀ c rest, h.toList ++ x = '!' :: c :: rest → c ≠ '<' := by
    intro c rest spelled
    rcases shaped with rfl | ⟨name, word, named⟩
    · -- the handle `!`: the second character is the first of the suffix
      rw [show "!".toList = ['!'] by decide, List.cons_append, List.nil_append,
        List.cons.injEq] at spelled
      obtain ⟨-, rfl⟩ := spelled
      rintro rfl
      exact open_ List.mem_cons_self
    · rw [named] at spelled
      rcases name with _ | ⟨d, name⟩
      · simp only [List.cons_append, List.nil_append, List.cons.injEq, true_and] at spelled
        rw [← spelled.1]
        decide
      · simp only [List.cons_append, List.cons.injEq, true_and] at spelled
        rw [← spelled.1]
        rintro same
        exact absurd (same ▸ word d List.mem_cons_self) (by decide)
  unfold verbatimBody
  rw [if_neg]
  rintro ⟨⟨rest, spelled⟩, -⟩
  exact second '<' rest spelled.symm rfl

theorem cutAfterLastBang_shorthand {h : String} {x : List Char} (shaped : IsHandle h)
    (no_bang : '!' ∉ x) :
    cutAfterLastBang (h.toList ++ x) = (h.toList, x) := by
  obtain ⟨front, spelled⟩ := shaped.ends_with_bang
  have kept : ∀ c ∈ x.reverse, (c != '!') = true := by
    intro c member
    rw [bne_iff_ne]
    rintro rfl
    exact no_bang (List.mem_reverse.mp member)
  simp [cutAfterLastBang, spelled, List.takeWhile_append_of_pos kept,
    List.dropWhile_append_of_pos kept]

/-- Every written tag but `!` reads back as itself, when the handles have the shape of handles
and each is held once. -/
theorem expand_render {scope : TagScope} (keys : (scope.handles.map Prod.fst).Nodup)
    (shaped : ∀ e ∈ scope.handles, IsHandle e.1) {t : String} (notBang : t ≠ "!") :
    scope.expand (scope.render t) = some t := by
  rcases render_spec scope notBang with ⟨h, p, x, ⟨inScope, split, valid⟩, written, -⟩ |
    ⟨-, written⟩
  · have handle := shaped _ inScope
    obtain ⟨no_bang, open_⟩ := isSuffix_no_marks valid
    have found : scope.handles.lookup h = some p := (mem_iff_lookup keys h p).mp inScope
    have named : h.toList ≠ [] := by
      obtain ⟨front, spelled⟩ := handle.ends_with_bang
      simp [spelled]
    rw [written, expand, String.toList_append, verbatimBody_shorthand handle open_,
      cutAfterLastBang_shorthand handle no_bang]
    simp [named, found, split]
  · rw [written, expand]
    have spelled : ("!<" ++ t ++ ">").toList = ['!', '<'] ++ t.toList ++ ['>'] := by simp
    rw [spelled, verbatimBody_wrap]
    simp

theorem directivePrefix_named {ds : List TagDirective} {h p : String}
    (given : directivePrefix ds h = some p) : ∃ d ∈ ds, d.handle = h := by
  unfold directivePrefix at given
  obtain ⟨d, last, -⟩ := Option.map_eq_some_iff.mp given
  obtain ⟨inDs, named⟩ := List.mem_filter.mp (List.mem_of_getLast? last)
  exact ⟨d, inDs, by simpa using named⟩

theorem forDocument_shaped {ds : List TagDirective} (shaped : ∀ d ∈ ds, IsHandle d.handle) :
    ∀ e ∈ (forDocument ds).handles, IsHandle e.1 := by
  rintro ⟨h, p⟩ member
  have given := ((forDocument_handles ds).2 h p).mp member
  cases named : directivePrefix ds h with
  | some p' =>
    obtain ⟨d, inDs, rfl⟩ := directivePrefix_named named
    exact shaped d inDs
  | none =>
    rw [named, Option.none_or] at given
    obtain ⟨front, back, spelled, -⟩ := List.lookup_eq_some_iff.mp given
    have standardEntry : (h, p) ∈ standard.handles :=
      spelled ▸ List.mem_append_right _ List.mem_cons_self
    simp only [standard, List.mem_cons, Prod.mk.injEq, List.not_mem_nil, or_false] at standardEntry
    rcases standardEntry with ⟨rfl, -⟩ | ⟨rfl, -⟩
    · exact .inl rfl
    · exact .inr ⟨[], by simp, by dsimp only; decide⟩

/-- Tag shorthand under the directives of a document whose handles have the shape of YAML
handles. The scope holds each handle once, with the prefix of its last directive or else the
standard one; `!` is written `!`; any other tag is written as the handle with the longest
prefix that leaves a valid suffix, followed by that suffix, or verbatim when no handle does;
and reading what is written gives the tag back. -/
theorem shorthand_expands_back (ds : List TagDirective) (shaped : ∀ d ∈ ds, IsHandle d.handle)
    (t : String) :
    (((forDocument ds).handles.map Prod.fst).Nodup ∧
      ∀ h p, (h, p) ∈ (forDocument ds).handles ↔
        (directivePrefix ds h).or (standard.handles.lookup h) = some p) ∧
    (t = "!" → (forDocument ds).render t = "!") ∧
    (t ≠ "!" → (forDocument ds).IsShorthand t ((forDocument ds).render t) ∨
      ((∀ h p x, ¬ (forDocument ds).Fits t h p x) ∧
        (forDocument ds).render t = "!<" ++ t ++ ">")) ∧
    (t ≠ "!" → (forDocument ds).expand ((forDocument ds).render t) = some t) := by
  have handles := forDocument_handles ds
  refine ⟨handles, fun bang => by subst bang; exact render_bang _, render_spec _, fun notBang => ?_⟩
  exact expand_render handles.1 (forDocument_shaped shaped) notBang

theorem exampleDirectives_shorthand_expands_back :
    (∀ d ∈ [(⟨"!e!", "tag:example.com,2000:"⟩ : TagDirective), ⟨"!", "tag:local,2024:"⟩],
      IsHandle d.handle) ∧
    (((forDocument [⟨"!e!", "tag:example.com,2000:"⟩, ⟨"!", "tag:local,2024:"⟩]).handles.map
        Prod.fst).Nodup ∧
      ∀ h p, (h, p) ∈
          (forDocument [⟨"!e!", "tag:example.com,2000:"⟩, ⟨"!", "tag:local,2024:"⟩]).handles ↔
        (directivePrefix [⟨"!e!", "tag:example.com,2000:"⟩, ⟨"!", "tag:local,2024:"⟩] h).or
          (standard.handles.lookup h) = some p) ∧
    ("tag:example.com,2000:thing" = "!" →
      (forDocument [⟨"!e!", "tag:example.com,2000:"⟩, ⟨"!", "tag:local,2024:"⟩]).render
        "tag:example.com,2000:thing" = "!") ∧
    ("tag:example.com,2000:thing" ≠ "!" →
      (forDocument [⟨"!e!", "tag:example.com,2000:"⟩, ⟨"!", "tag:local,2024:"⟩]).IsShorthand
        "tag:example.com,2000:thing"
        ((forDocument [⟨"!e!", "tag:example.com,2000:"⟩, ⟨"!", "tag:local,2024:"⟩]).render
          "tag:example.com,2000:thing") ∨
      ((∀ h p x, ¬ (forDocument [⟨"!e!", "tag:example.com,2000:"⟩, ⟨"!", "tag:local,2024:"⟩]).Fits
          "tag:example.com,2000:thing" h p x) ∧
        (forDocument [⟨"!e!", "tag:example.com,2000:"⟩, ⟨"!", "tag:local,2024:"⟩]).render
          "tag:example.com,2000:thing" = "!<" ++ "tag:example.com,2000:thing" ++ ">")) ∧
    ("tag:example.com,2000:thing" ≠ "!" →
      (forDocument [⟨"!e!", "tag:example.com,2000:"⟩, ⟨"!", "tag:local,2024:"⟩]).expand
        ((forDocument [⟨"!e!", "tag:example.com,2000:"⟩, ⟨"!", "tag:local,2024:"⟩]).render
          "tag:example.com,2000:thing") = some "tag:example.com,2000:thing") := by
  have shaped : ∀ d ∈ [(⟨"!e!", "tag:example.com,2000:"⟩ : TagDirective), ⟨"!", "tag:local,2024:"⟩],
      IsHandle d.handle := by
    simp only [List.mem_cons, List.not_mem_nil, or_false, forall_eq_or_imp, forall_eq]
    exact ⟨.inr ⟨['e'], fun c member => by rw [List.mem_singleton.mp member]; rfl, by decide⟩,
      .inl rfl⟩
  exact ⟨shaped, shorthand_expands_back _ shaped "tag:example.com,2000:thing"⟩

example : (forDocument [⟨"!e!", "tag:example.com,2000:"⟩, ⟨"!", "tag:local,2024:"⟩]).render
    "tag:example.com,2000:thing" = "!e!thing" := by decide +kernel

/-- Under `%TAG ! tag:local,2024:` the tag `!` is still written `!`, and reading that back gives
the new prefix of `!`, not `!`. -/
theorem localBang_reads_as_prefix :
    IsHandle "!" ∧
      (forDocument [⟨"!", "tag:local,2024:"⟩]).expand
          ((forDocument [⟨"!", "tag:local,2024:"⟩]).render "!") =
        some "tag:local,2024:" := by
  refine ⟨.inl rfl, ?_⟩
  rw [render_bang]
  decide +kernel

end TagScope

end AnnotatedYaml
