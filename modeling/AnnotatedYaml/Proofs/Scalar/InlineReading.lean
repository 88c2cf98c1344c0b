import AnnotatedYaml.Layout.Scalar

/-! Reading a scalar written on one line back, by the rules of YAML 1.2. -/

namespace AnnotatedYaml

namespace Yaml

/-- `c-printable`: the characters a YAML stream may hold. -/
def isPrintable (c : Char) : Bool :=
  let n := c.toNat
  n == 0x09 || n == 0x0A || n == 0x0D || (0x20 ≤ n && n ≤ 0x7E) || n == 0x85 ||
    (0xA0 ≤ n && n ≤ 0xD7FF) || (0xE000 ≤ n && n ≤ 0xFFFD) || 0x10000 ≤ n

def isBreak (c : Char) : Bool := c == '\n' || c == '\r'

def isWhite (c : Char) : Bool := c == ' ' || c == '\t'

/-- `nb-char`: a printable character other than a line break and the byte order mark. -/
def isNbChar (c : Char) : Bool := isPrintable c && !isBreak c && c != '\uFEFF'

/-- `ns-char`: an `nb-char` that is not white space. -/
def isNsChar (c : Char) : Bool := isNbChar c && !isWhite c

/-- `nb-json`: what quoted scalars may hold, a tab or any character from the space on. -/
def isNbJson (c : Char) : Bool := c == '\t' || 0x20 ≤ c.toNat

def isIndicator (c : Char) : Bool := c ∈ "-?:,[]{}#&*!|>'\"%@`".toList

def isFlowIndicator (c : Char) : Bool := c ∈ [',', '[', ']', '{', '}']

/-! ### Plain scalars -/

/-- `ns-plain-safe(c)`: a character that may go on a plain scalar; inside flow collections
the flow indicators end it. -/
def isPlainSafe (inFlow : Bool) (c : Char) : Bool := isNsChar c && !(inFlow && isFlowIndicator c)

/-- `ns-plain-char(c)`, for `c` after `prev` and before `next`: a `:` only before a safe
character, a `#` only after a character that is not white space. -/
def isPlainChar (inFlow : Bool) (prev c : Char) (next : Option Char) : Bool :=
  if c == ':' then (next.map (isPlainSafe inFlow)).getD false
  else if c == '#' then isNsChar prev
  else isPlainSafe inFlow c

/-- `nb-ns-plain-in-line(c)` after the character `prev`: white space and plain characters,
never ending in white space. -/
def plainRest (inFlow : Bool) : Char → List Char → Bool
  | _, [] => true
  | prev, c :: rest =>
    (if isWhite c then !rest.isEmpty else isPlainChar inFlow prev c rest.head?) &&
      plainRest inFlow c rest

/-- `ns-plain-one-line(c)`: a plain scalar on one line, as a whole. An indicator may start it
only if it is `-`, `?` or `:` and a safe character follows. -/
def isPlainLine (inFlow : Bool) : List Char → Bool
  | [] => false
  | first :: rest =>
    (if isIndicator first then
        (first == '-' || first == '?' || first == ':') &&
          (rest.head?.map (isPlainSafe inFlow)).getD false
      else isNsChar first) && plainRest inFlow first rest

/-! ### Quoted scalars -/

/-- The text of a single-quoted scalar after its opening quote, up to the closing quote,
which must end the input; two quotes stand for one. -/
def singleBody : List Char → Option (List Char)
  | [] => none
  | ['\''] => some []
  | '\'' :: '\'' :: rest => (singleBody rest).map ('\'' :: ·)
  | '\'' :: _ :: _ => none
  | c :: rest => if isNbJson c then (singleBody rest).map (c :: ·) else none

/-- The character a one-letter escape `\e` stands for. -/
def escapeOf : Char → Option Char
  | '0' => some '\x00' | 'a' => some '\x07' | 'b' => some '\x08' | 't' => some '\t'
  | '\t' => some '\t' | 'n' => some '\n' | 'v' => some '\x0b' | 'f' => some '\x0c'
  | 'r' => some '\r' | 'e' => some '\x1b' | ' ' => some ' ' | '"' => some '"'
  | '/' => some '/' | '\\' => some '\\' | 'N' => some '\x85' | '_' => some '\xa0'
  | 'L' => some '\u2028' | 'P' => some '\u2029'
  | _ => none

def hexDigitValue (c : Char) : Option Nat :=
  if '0' ≤ c ∧ c ≤ '9' then some (c.toNat - '0'.toNat)
  else if 'a' ≤ c ∧ c ≤ 'f' then some (c.toNat - 'a'.toNat + 10)
  else if 'A' ≤ c ∧ c ≤ 'F' then some (c.toNat - 'A'.toNat + 10)
  else none

/-- The number that hexadecimal digits `ds` write, after the digits read so far gave `acc`. -/
def hexValue (acc : Nat) : List Char → Option Nat
  | [] => some acc
  | d :: ds => (hexDigitValue d).bind fun v => hexValue (16 * acc + v) ds

/-- The character with code `n`, when `n` is the code of one. -/
def charOfCode (n : Nat) : Option Char := if n.isValidChar then some (Char.ofNat n) else none

/-- The character an escape `\x`, `\u` or `\U` with digits `ds` stands for. -/
def codeEscape (ds : List Char) : Option Char := (hexValue 0 ds).bind charOfCode

/-- The text of a double-quoted scalar after its opening quote, up to the closing quote, which
must end the input; escapes are decoded. -/
def doubleBody : List Char → Option (List Char)
  | [] => none
  | ['"'] => some []
  | '"' :: _ :: _ => none
  | '\\' :: 'x' :: a :: b :: rest =>
    (codeEscape [a, b]).bind fun c => (doubleBody rest).map (c :: ·)
  | '\\' :: 'u' :: a :: b :: c :: d :: rest =>
    (codeEscape [a, b, c, d]).bind fun e => (doubleBody rest).map (e :: ·)
  | '\\' :: 'U' :: a :: b :: c :: d :: e :: f :: g :: h :: rest =>
    (codeEscape [a, b, c, d, e, f, g, h]).bind fun x => (doubleBody rest).map (x :: ·)
  | '\\' :: e :: rest => (escapeOf e).bind fun c => (doubleBody rest).map (c :: ·)
  | c :: rest => if isNbJson c then (doubleBody rest).map (c :: ·) else none

/-- The value a text written on one line stands for: in flow context as the one entry of
`[x]`, otherwise as a mapping value after `k: `, where nothing stands for the empty value. -/
def readInline (inFlow : Bool) : List Char → Option (List Char)
  | [] => if inFlow then none else some []
  | '\'' :: rest => singleBody rest
  | '"' :: rest => doubleBody rest
  | x => if isPlainLine inFlow x then some x else none

end Yaml

open Yaml

/-! ### The writer's character classes against YAML's -/

namespace Encoded

theorem isIndicator_eq (c : Char) : isIndicator c = Yaml.isIndicator c := by
  simp [isIndicator, Yaml.isIndicator]

theorem isFlowIndicator_eq (c : Char) : isFlowIndicator c = Yaml.isFlowIndicator c := by
  simp [isFlowIndicator, Yaml.isFlowIndicator]

theorem isPrintable_facts {c : Char} (h : isPrintable c = true) :
    0x20 ≤ c.toNat ∧ c ≠ '\n' ∧ c ≠ '\r' ∧ c ≠ '\uFEFF' := by
  simp only [isPrintable, Text.isControl, Bool.and_eq_true, Bool.not_eq_true', Bool.or_eq_false_iff,
    decide_eq_false_iff_not, Bool.and_eq_false_imp, bne_iff_ne, ne_eq] at h
  obtain ⟨⟨low, -⟩, bom⟩ := h
  refine ⟨by omega, ?_, ?_, bom⟩ <;> rintro rfl <;> simp at low

end Encoded

theorem isNbJson_of_printable {c : Char} (h : Encoded.isPrintable c = true) : isNbJson c = true := by
  simp [isNbJson, (Encoded.isPrintable_facts h).1]

theorem isNsChar_of_printable {c : Char} (h : Encoded.isPrintable c = true)
    (hy : Yaml.isPrintable c = true) (space : c ≠ ' ') (tab : c ≠ '\t') : isNsChar c = true := by
  obtain ⟨-, lf, cr, bom⟩ := Encoded.isPrintable_facts h
  simp [isNsChar, isNbChar, isBreak, isWhite, hy, lf, cr, bom, space, tab]

/-! ### Plain scalars -/

/-- What the writer's plain check asks of each character of a plain value, with YAML's own
printable set: printable for both, no tab, and no flow indicator inside a flow collection. -/
def PlainChar (inFlow : Bool) (c : Char) : Prop :=
  Encoded.isPrintable c = true ∧ Yaml.isPrintable c = true ∧ c ≠ '\t' ∧
    ¬(inFlow = true ∧ Yaml.isFlowIndicator c = true)

theorem isPlainSafe_of_plainChar {inFlow : Bool} {c : Char} (h : PlainChar inFlow c)
    (space : c ≠ ' ') : Yaml.isPlainSafe inFlow c = true := by
  obtain ⟨printable, yaml, tab, flow⟩ := h
  simp only [Yaml.isPlainSafe, isNsChar_of_printable printable yaml space tab, Bool.true_and,
    Bool.not_eq_true', Bool.and_eq_false_imp]
  intro hf
  simpa [hf] using flow

/-- After any character, the rest of a value that the writer's plain check lets through is
`nb-ns-plain-in-line`: a `:` is never followed by white space or left last, a `#` never
follows white space, and the value never ends in white space. -/
theorem plainRest_of_safe {inFlow : Bool} : ∀ {prev : Char} {rest : List Char},
    (∀ c ∈ prev :: rest, PlainChar inFlow c) →
    ¬ [':', ' '] <:+: prev :: rest → ¬ [' ', '#'] <:+: prev :: rest →
    (prev :: rest).getLast? ≠ some ':' → (prev :: rest).getLast? ≠ some ' ' →
    plainRest inFlow prev rest = true
  | _, [], _, _, _, _, _ => rfl
  | prev, c :: rest, chars, colon, hash, lastColon, lastSpace => by
    have tail : ∀ {p : List Char}, p <:+: c :: rest → p <:+: prev :: c :: rest :=
      fun h => h.trans (List.suffix_cons prev _).isInfix
    have here : PlainChar inFlow c := chars c (by simp)
    have step : (if isWhite c then !rest.isEmpty else isPlainChar inFlow prev c rest.head?) = true := by
      by_cases white : isWhite c = true
      · -- a space inside the value: the value goes on after it
        have space : c = ' ' := by
          simp only [isWhite, Bool.or_eq_true, beq_iff_eq] at white
          exact white.resolve_right here.2.2.1
        subst space
        cases rest with
        | nil => exact absurd rfl lastSpace
        | cons d rest => simp [white]
      · have space : c ≠ ' ' := by rintro rfl; simp [isWhite] at white
        simp only [white, isPlainChar]
        by_cases hc : c = ':'
        · -- a colon is followed by a character that may go on the scalar
          subst hc
          cases rest with
          | nil => exact absurd rfl lastColon
          | cons d rest =>
            have dspace : d ≠ ' ' := by
              rintro rfl
              exact colon (tail ⟨[], rest, rfl⟩)
            simp [isPlainSafe_of_plainChar (chars d (by simp)) dspace]
        · by_cases hh : c = '#'
          · -- a hash follows a character that is not white space
            subst hh
            have pspace : prev ≠ ' ' := by
              rintro rfl
              exact hash ⟨[], rest, rfl⟩
            obtain ⟨printable, yaml, tab, -⟩ := chars prev (by simp)
            simp [isNsChar_of_printable printable yaml pspace tab]
          · simp [hc, hh, isPlainSafe_of_plainChar here space]
    have later : plainRest inFlow c rest = true := plainRest_of_safe
      (fun x hx => chars x (List.mem_cons_of_mem _ hx)) (fun h => colon (tail h))
      (fun h => hash (tail h)) (by simpa [List.getLast?_cons_cons] using lastColon)
      (by simpa [List.getLast?_cons_cons] using lastSpace)
    simp [plainRest, step, later]

theorem hasPair_iff (a b : Char) : ∀ cs : List Char, Encoded.hasPair a b cs = true ↔ [a, b] <:+: cs
  | x :: y :: rest => by
    have front : [a, b] <+: x :: y :: rest ↔ x = a ∧ y = b := by
      simp only [List.cons_prefix_cons, List.nil_prefix, and_true]
      constructor <;> rintro ⟨rfl, rfl⟩ <;> exact ⟨rfl, rfl⟩
    have split : [a, b] <:+: x :: y :: rest ↔ [a, b] <+: x :: y :: rest ∨ [a, b] <:+: y :: rest :=
      List.infix_cons_iff
    rw [split, front, Encoded.hasPair, Bool.or_eq_true, hasPair_iff a b (y :: rest)]
    simp
  | [x] => by
    simp only [Encoded.hasPair, Bool.false_eq_true, false_iff]
    intro inside
    simpa using inside.length_le
  | [] => by
    simp only [Encoded.hasPair, Bool.false_eq_true, false_iff]
    intro inside
    simpa using inside.length_le

/-- A value the writer writes plain is a whole plain scalar on one line, provided YAML prints
each of its characters. -/
theorem isPlainLine_of_safe {v : String} {inFlow : Bool}
    (safe : Encoded.isPlainSafe v inFlow = true) (printable : ∀ c ∈ v.toList, Yaml.isPrintable c = true) :
    isPlainLine inFlow v.toList = true := by
  unfold Encoded.isPlainSafe at safe
  split at safe
  · simp at safe
  · rename_i first rest chars
    rw [chars]
    rw [chars] at printable
    simp only [Bool.and_eq_true, Bool.not_eq_eq_eq_not, Bool.not_true, List.all_eq_true,
      bne_iff_ne, ne_eq] at safe
    obtain ⟨⟨⟨⟨⟨⟨⟨⟨⟨⟨⟨indicator, firstWhite⟩, lastWhite⟩, lastColon⟩, -⟩, -⟩, colon⟩, -⟩, hash⟩, -⟩,
      flow⟩, each⟩ := safe
    have plainChars : ∀ c ∈ first :: rest, PlainChar inFlow c := by
      intro c hc
      obtain ⟨tab, print⟩ := each c hc
      refine ⟨print, printable c hc, tab, fun inFlowIndicator => ?_⟩
      obtain ⟨f, fi⟩ := inFlowIndicator
      simp only [Bool.and_eq_false_imp, List.any_eq_false] at flow
      exact absurd (by rwa [Encoded.isFlowIndicator_eq]) (flow f c hc)
    have lastSpace : (first :: rest).getLast? ≠ some ' ' := by
      intro h
      simp [h, Text.isWhite] at lastWhite
    have firstSpace : first ≠ ' ' := by rintro rfl; simp [Text.isWhite] at firstWhite
    have colonSpace : ¬[':', ' '] <:+: first :: rest := by
      rw [← hasPair_iff]
      simpa using colon
    have spaceHash : ¬[' ', '#'] <:+: first :: rest := by
      rw [← hasPair_iff]
      simpa using hash
    simp only [isPlainLine, Bool.and_eq_true]
    refine ⟨?_, plainRest_of_safe plainChars colonSpace spaceHash (by simpa using lastColon)
      lastSpace⟩
    by_cases ind : Yaml.isIndicator first = true
    · -- an indicator starts the value only as `-`, `?` or `:` before a safe character
      rw [← Encoded.isIndicator_eq] at ind
      simp only [← Encoded.isIndicator_eq, ind, if_true, Bool.and_eq_true, Bool.or_eq_true,
        beq_iff_eq]
      simp only [ind, Bool.true_and, Bool.or_eq_false_iff, Bool.not_eq_false'] at indicator
      cases rest with
      | nil => simp at indicator
      | cons d rest =>
        simp only [Bool.and_eq_true, Bool.not_eq_true', Bool.or_eq_true, beq_iff_eq] at indicator
        obtain ⟨allowed, dWhite, -⟩ := indicator
        have dspace : d ≠ ' ' := by rintro rfl; simp [Text.isWhite] at dWhite
        exact ⟨allowed, by simpa using isPlainSafe_of_plainChar (plainChars d (by simp)) dspace⟩
    · have tab : first ≠ '\t' := (plainChars first (by simp)).2.2.1
      simp [ind, isNsChar_of_printable (plainChars first (by simp)).1 (printable first (by simp))
        firstSpace tab]

theorem readInline_unquoted {inFlow : Bool} {c : Char} {rest : List Char} (single : c ≠ '\'')
    (double : c ≠ '"') :
    readInline inFlow (c :: rest) =
      if isPlainLine inFlow (c :: rest) then some (c :: rest) else none :=
  readInline.eq_4 _ _ (by simp) (by simpa using single) (by simpa using double)

theorem readInline_of_isPlainLine {inFlow : Bool} {x : List Char}
    (plain : isPlainLine inFlow x = true) : readInline inFlow x = some x := by
  cases x with
  | nil => simp [isPlainLine] at plain
  | cons c rest =>
    -- a plain scalar never starts with a quote, which is an indicator other than `-`, `?`, `:`
    have single : c ≠ '\'' := by rintro rfl; simp [isPlainLine, isIndicator] at plain
    have double : c ≠ '"' := by rintro rfl; simp [isPlainLine, isIndicator] at plain
    simp [readInline_unquoted single double, plain]

theorem isPrintable_of_plainRest {inFlow : Bool} :
    ∀ {prev : Char} {rest : List Char}, plainRest inFlow prev rest = true →
      ∀ c ∈ rest, Yaml.isPrintable c = true
  | _, [], _ => by simp
  | prev, c :: rest, plain => by
    simp only [plainRest, Bool.and_eq_true] at plain
    obtain ⟨here, later⟩ := plain
    intro x hx
    rcases List.mem_cons.mp hx with rfl | hx
    · by_cases white : isWhite x = true
      · simp only [isWhite, Bool.or_eq_true, beq_iff_eq] at white
        rcases white with rfl | rfl <;> decide +kernel
      · -- a colon or a hash is printable, any other plain character is an `ns-char`
        by_cases colon : x = ':'
        · subst colon; decide +kernel
        · by_cases hash : x = '#'
          · subst hash; decide +kernel
          · simp [white, isPlainChar, colon, hash, Yaml.isPlainSafe, isNsChar, isNbChar] at here
            exact here.1.1.1
    · exact isPrintable_of_plainRest later x hx

theorem isPrintable_of_isPlainLine {inFlow : Bool} {x : List Char}
    (plain : isPlainLine inFlow x = true) : ∀ c ∈ x, Yaml.isPrintable c = true := by
  cases x with
  | nil => simp [isPlainLine] at plain
  | cons first rest =>
    simp only [isPlainLine, Bool.and_eq_true] at plain
    obtain ⟨head, tail⟩ := plain
    intro c hc
    rcases List.mem_cons.mp hc with rfl | hc
    · split at head
      · -- an indicator is printable
        rename_i indicator
        have indicators : "-?:,[]{}#&*!|>'\"%@`".toList.all Yaml.isPrintable = true := by
          decide +kernel
        exact List.all_eq_true.mp indicators c (by simpa [Yaml.isIndicator] using indicator)
      · simp_all [isNsChar, isNbChar]
    · exact isPrintable_of_plainRest tail c hc

/-! ### Single-quoted scalars -/

/-- Reading single-quoted text undoes the writer's quoting of a value that quoted scalars may
hold. -/
theorem singleBody_quoted : ∀ v : List Char, (∀ c ∈ v, isNbJson c = true) →
    singleBody ((v.flatMap fun c => if c == '\'' then ['\'', '\''] else [c]) ++ ['\'']) = some v
  | [], _ => rfl
  | c :: v, chars => by
    have rest := singleBody_quoted v (fun x hx => chars x (List.mem_cons_of_mem _ hx))
    by_cases quote : c = '\''
    · subst quote
      rw [List.flatMap_cons, if_pos (beq_self_eq_true _), List.append_assoc]
      simp only [List.cons_append, List.nil_append]
      rw [singleBody.eq_3, rest]
      rfl
    · rw [List.flatMap_cons, if_neg (by simpa using quote), List.singleton_append,
        List.cons_append, singleBody.eq_5 _ _ (fun h => absurd h quote)
          (fun _ h => absurd h quote) (fun _ _ h => absurd h quote),
        if_pos (chars c (by simp)), rest]
      rfl

/-! ### Hexadecimal digits -/

theorem hexValue_append (acc : Nat) (xs ys : List Char) :
    hexValue acc (xs ++ ys) = (hexValue acc xs).bind fun a => hexValue a ys := by
  induction xs generalizing acc with
  | nil => rfl
  | cons d xs ih =>
    simp only [List.cons_append, hexValue]
    cases hexDigitValue d <;> simp [ih]

theorem hexValue_zeros (m : Nat) (ds : List Char) :
    hexValue 0 (List.replicate m '0' ++ ds) = hexValue 0 ds := by
  induction m with
  | zero => rfl
  | succ m ih => simpa [List.replicate_succ, hexValue, hexDigitValue] using ih

theorem hexDigitValue_digitChar : ∀ n < 16, hexDigitValue (Nat.digitChar n).toUpper = some n := by
  decide +kernel

theorem hexValue_hexDigits (n : Nat) :
    hexValue 0 ((Text.hexDigits n).map Char.toUpper) = some n := by
  rw [Text.hexDigits]
  split
  · rename_i small
    simp [hexValue, hexDigitValue_digitChar n small]
  · rw [List.map_append, hexValue_append, hexValue_hexDigits (n / 16)]
    simp only [Option.bind_some, List.map_cons, List.map_nil, hexValue,
      hexDigitValue_digitChar (n % 16) (Nat.mod_lt _ (by decide +kernel))]
    simp only [Option.some.injEq]
    omega
termination_by n
decreasing_by omega

theorem hexDigits_length_le {n w : Nat} (h : n < Nat.pow 16 w) (hw : 0 < w) :
    (Text.hexDigits n).length ≤ w := by
  rw [Text.hexDigits]
  split
  · simp only [List.length_singleton]
    omega
  · rename_i large
    obtain ⟨w, rfl⟩ : ∃ u, w = u + 1 := ⟨w - 1, by omega⟩
    have lower : n / 16 < Nat.pow 16 w := by
      rw [Nat.div_lt_iff_lt_mul (by decide +kernel)]
      simpa [Nat.pow_succ] using h
    have hw' : 0 < w := by
      rcases Nat.eq_zero_or_pos w with rfl | pos
      · simp at h; omega
      · exact pos
    simpa using hexDigits_length_le lower hw'
termination_by n
decreasing_by omega

/-- `hexUpper n w` writes `n` in exactly `w` digits when it fits. -/
theorem hexUpper_spec {n w : Nat} (h : n < Nat.pow 16 w) (hw : 0 < w) :
    (Encoded.hexUpper n w).length = w ∧ hexValue 0 (Encoded.hexUpper n w) = some n := by
  have fits := hexDigits_length_le h hw
  refine ⟨by simp [Encoded.hexUpper]; omega, ?_⟩
  simp only [Encoded.hexUpper]
  rw [hexValue_zeros, hexValue_hexDigits]

theorem codeEscape_hexUpper {c : Char} {w : Nat} (h : c.toNat < Nat.pow 16 w) (hw : 0 < w) :
    codeEscape (Encoded.hexUpper c.toNat w) = some c := by
  have valid : c.toNat.isValidChar := c.valid
  simp [codeEscape, (hexUpper_spec h hw).2, charOfCode, valid, Char.ofNat_toNat]

theorem hexDigit_of_hexValue {acc n : Nat} : ∀ {ds : List Char}, hexValue acc ds = some n →
    ∀ d ∈ ds, (hexDigitValue d).isSome := by
  intro ds
  induction ds generalizing acc with
  | nil => simp
  | cons d ds ih =>
    intro read x hx
    simp only [hexValue] at read
    cases digit : hexDigitValue d with
    | none => simp [digit] at read
    | some v =>
      rw [digit] at read
      rcases List.mem_cons.mp hx with rfl | later
      · simp [digit]
      · exact ih read x later

/-! ### Double-quoted scalars -/

theorem eq_bom_of_not_printable {c : Char} (printable : ¬Encoded.isPrintable c = true)
    (large : ¬c.toNat ≤ 0xFF) : c = '\uFEFF' := by
  simp [Encoded.isPrintable, Text.isControl] at printable
  exact printable (by omega) (by omega)

/-- What the writer escapes it escapes with a letter, two hexadecimal digits or four; every
other character it prints as it is. Reading the escaped character decodes it. -/
theorem doubleBody_escape (c : Char) (rest : List Char) :
    doubleBody (Encoded.escapeDouble c ++ rest) = (doubleBody rest).map (c :: ·) := by
  unfold Encoded.escapeDouble
  split
  all_goals try (simp [doubleBody, escapeOf]; done)
  rename_i quote backslash _ _ _ _ _ _ _ _ _ _ _ _ _
  split
  · -- printed as it is: neither a quote nor a backslash, and from the space on
    rename_i printable
    rw [List.singleton_append, doubleBody.eq_8 _ _ (fun h => absurd h quote)
      (fun _ _ h => absurd h quote) (fun _ _ _ h => absurd h backslash)
      (fun _ _ _ _ _ h => absurd h backslash) (fun _ _ _ _ _ _ _ _ _ h => absurd h backslash)
      (fun _ _ h => absurd h backslash)]
    simp [isNbJson_of_printable printable]
  · split
    · -- `\x` and two digits
      rename_i small
      have fits : c.toNat < Nat.pow 16 2 := by simp; omega
      have code := codeEscape_hexUpper fits (by decide +kernel)
      have two := (hexUpper_spec fits (by decide +kernel)).1
      generalize Encoded.hexUpper c.toNat 2 = ds at code two
      rcases ds with _ | ⟨a, _ | ⟨b, _ | ⟨_, _⟩⟩⟩ <;> simp at two
      simp [doubleBody, code]
    · -- `\u` and four digits, which hold the byte order mark, the one character left
      rename_i printable large
      have fits : c.toNat < Nat.pow 16 4 := by rw [eq_bom_of_not_printable printable large]; decide +kernel
      have code := codeEscape_hexUpper fits (by decide +kernel)
      have four := (hexUpper_spec fits (by decide +kernel)).1
      generalize Encoded.hexUpper c.toNat 4 = ds at code four
      rcases ds with _ | ⟨a, _ | ⟨b, _ | ⟨d, _ | ⟨e, _ | ⟨_, _⟩⟩⟩⟩⟩ <;> simp at four
      simp [doubleBody, code]

theorem doubleBody_quoted (v : List Char) :
    doubleBody (v.flatMap Encoded.escapeDouble ++ ['"']) = some v := by
  induction v with
  | nil => rfl
  | cons c v ih => rw [List.flatMap_cons, List.append_assoc, doubleBody_escape, ih]; rfl

theorem length_le_length_flatMap {f : Char → List Char} (nonempty : ∀ c, f c ≠ []) :
    ∀ v : List Char, v.length ≤ (v.flatMap f).length
  | [] => Nat.le_refl 0
  | c :: v => by
    have rest := length_le_length_flatMap nonempty v
    have one : 0 < (f c).length := List.length_pos_iff.mpr (nonempty c)
    simp only [List.flatMap_cons, List.length_append, List.length_cons]
    omega

theorem escapeDouble_ne_nil (c : Char) : Encoded.escapeDouble c ≠ [] := by
  unfold Encoded.escapeDouble
  split
  all_goals try (simp; done)
  repeat' split
  all_goals simp

/-! ### The three one-line forms -/

/-- A scalar goes on one line as its own text when it is empty or safe to write plain, as the
single-quoted form when each of its characters may stand between single quotes, and as the
double-quoted form otherwise. -/
theorem encode_inline_forms {s : Scalar} {inFlow : Bool} {indent : Nat} {x : String}
    (written : s.encode inFlow indent = .inline x) :
    (x = s.value ∧ (s.value = "" ∨ Encoded.isPlainSafe s.value inFlow = true)) ∨
      (x = Encoded.singleQuoted s.value ∧ Encoded.isSingleQuotable s.value = true) ∨
      x = Encoded.doubleQuoted s.value := by
  unfold Scalar.encode at written
  cases style : s.style <;> simp only [style] at written
  all_goals repeat' split at written
  all_goals simp_all [Encoded.blockOf]

theorem isPlainSafe_chars {v : String} {inFlow : Bool} (safe : Encoded.isPlainSafe v inFlow = true) :
    ∀ c ∈ v.toList, c ≠ '\t' ∧ Encoded.isPrintable c = true := by
  unfold Encoded.isPlainSafe at safe
  split at safe
  · simp at safe
  · rename_i first rest chars
    rw [chars]
    simp only [Bool.and_eq_true, List.all_eq_true, bne_iff_ne, ne_eq] at safe
    exact safe.2

theorem isPlainSafe_unquoted {v : String} {inFlow : Bool}
    (safe : Encoded.isPlainSafe v inFlow = true) :
    ∃ first rest, v.toList = first :: rest ∧ first ≠ '\'' ∧ first ≠ '"' := by
  unfold Encoded.isPlainSafe at safe
  split at safe
  · simp at safe
  · rename_i first rest chars
    refine ⟨first, rest, chars, ?_, ?_⟩ <;> rintro rfl <;> simp [Encoded.isIndicator] at safe

/-! ### No line breaks -/

theorem isBreak_of_printable {c : Char} (h : Encoded.isPrintable c = true) : isBreak c = false := by
  obtain ⟨-, lf, cr, -⟩ := Encoded.isPrintable_facts h
  simp [isBreak, lf, cr]

theorem isBreak_of_hexDigit {d : Char} (digit : (hexDigitValue d).isSome = true) :
    isBreak d = false := by
  cases h : isBreak d
  · rfl
  · simp only [isBreak, Bool.or_eq_true, beq_iff_eq] at h
    rcases h with rfl | rfl <;> exact absurd digit (by decide +kernel)

theorem hexUpper_no_break {n w : Nat} (h : n < Nat.pow 16 w) (hw : 0 < w) :
    ∀ d ∈ Encoded.hexUpper n w, isBreak d = false := fun d hd =>
  isBreak_of_hexDigit (hexDigit_of_hexValue (hexUpper_spec h hw).2 d hd)

theorem escapeDouble_no_break (c : Char) : ∀ d ∈ Encoded.escapeDouble c, isBreak d = false := by
  unfold Encoded.escapeDouble
  split
  all_goals try (simp [isBreak]; done)
  split
  · rename_i printable
    simpa using isBreak_of_printable printable
  · split
    · rename_i small
      simp only [List.cons_append, List.nil_append, List.mem_cons]
      rintro d (rfl | rfl | digit)
      · decide +kernel
      · decide +kernel
      · exact hexUpper_no_break (by simp; omega) (by decide +kernel) d digit
    · rename_i printable large
      have fits : c.toNat < Nat.pow 16 4 := by rw [eq_bom_of_not_printable printable large]; decide +kernel
      simp only [List.cons_append, List.nil_append, List.mem_cons]
      rintro d (rfl | rfl | digit)
      · decide +kernel
      · decide +kernel
      · exact hexUpper_no_break fits (by decide +kernel) d digit

/-- Nothing the writer puts on one line holds a line break. -/
theorem encode_inline_no_break {s : Scalar} {inFlow : Bool} {indent : Nat} {x : String}
    (written : s.encode inFlow indent = .inline x) : ∀ c ∈ x.toList, isBreak c = false := by
  rcases encode_inline_forms written with ⟨rfl, empty | safe⟩ | ⟨rfl, quotable⟩ | rfl
  · simp [empty]
  · exact fun c hc => isBreak_of_printable (isPlainSafe_chars safe c hc).2
  · -- the quotes, and each character of the value once or, for a quote, twice
    simp only [Encoded.singleQuoted, String.toList_ofList, List.mem_cons, List.mem_append,
      List.mem_flatMap]
    simp only [Encoded.isSingleQuotable, List.all_eq_true, Bool.or_eq_true, beq_iff_eq] at quotable
    rintro c ((rfl | ⟨v, hv, hc⟩) | hc)
    · rfl
    · split at hc
      · simp only [List.mem_cons, List.not_mem_nil, or_false] at hc
        rcases hc with rfl | rfl <;> rfl
      · simp only [List.mem_singleton] at hc
        subst hc
        rcases quotable c hv with rfl | printable
        · rfl
        · exact isBreak_of_printable printable
    · simp only [List.not_mem_nil, or_false] at hc
      subst hc
      rfl
  · simp only [Encoded.doubleQuoted, String.toList_ofList, List.mem_cons, List.mem_append,
      List.mem_flatMap]
    rintro c ((rfl | ⟨v, -, hc⟩) | hc)
    · rfl
    · exact escapeDouble_no_break v c hc
    · simp only [List.not_mem_nil, or_false] at hc
      subst hc
      rfl

/-! ### Reading the one-line forms back -/

theorem readInline_singleQuoted (inFlow : Bool) {v : String}
    (quotable : Encoded.isSingleQuotable v = true) :
    readInline inFlow (Encoded.singleQuoted v).toList = some v.toList := by
  simp only [Encoded.singleQuoted, String.toList_ofList, List.cons_append, readInline]
  refine singleBody_quoted _ fun c hc => ?_
  simp only [Encoded.isSingleQuotable, List.all_eq_true, Bool.or_eq_true, beq_iff_eq] at quotable
  rcases quotable c hc with rfl | printable
  · rfl
  · exact isNbJson_of_printable printable

theorem readInline_doubleQuoted (inFlow : Bool) (v : String) :
    readInline inFlow (Encoded.doubleQuoted v).toList = some v.toList := by
  simp only [Encoded.doubleQuoted, String.toList_ofList, List.cons_append, readInline]
  exact doubleBody_quoted _

/-- A value safe to write plain reads back as itself exactly when YAML may hold each of its
characters: the writer's check lets U+FFFE and U+FFFF through. -/
theorem readInline_plain_iff {v : String} {inFlow : Bool}
    (safe : Encoded.isPlainSafe v inFlow = true) :
    readInline inFlow v.toList = some v.toList ↔ ∀ c ∈ v.toList, Yaml.isPrintable c = true := by
  obtain ⟨first, rest, chars, single, double⟩ := isPlainSafe_unquoted safe
  constructor
  · intro read
    rw [chars, readInline_unquoted single double] at read
    split at read
    · rename_i plain
      rw [chars]
      exact isPrintable_of_isPlainLine plain
    · simp at read
  · intro printable
    exact readInline_of_isPlainLine (isPlainLine_of_safe safe printable)

example : Encoded.isPlainSafe "a\uFFFE" false = true ∧ readInline false "a\uFFFE".toList = none := by
  decide +kernel

theorem singleQuoted_ne (v : String) : Encoded.singleQuoted v ≠ v := by
  intro same
  have length := congrArg (fun t : String => t.toList.length) same
  have grows : v.toList.length ≤
      (v.toList.flatMap fun c => if c == '\'' then ['\'', '\''] else [c]).length :=
    length_le_length_flatMap (fun c => by split <;> simp) v.toList
  simp only [Encoded.singleQuoted, String.toList_ofList, List.length_append,
    List.length_cons] at length
  omega

theorem doubleQuoted_ne (v : String) : Encoded.doubleQuoted v ≠ v := by
  intro same
  have length := congrArg (fun t : String => t.toList.length) same
  have grows : v.toList.length ≤ (v.toList.flatMap Encoded.escapeDouble).length :=
    length_le_length_flatMap escapeDouble_ne_nil v.toList
  simp only [Encoded.doubleQuoted, String.toList_ofList, List.length_append,
    List.length_cons] at length
  omega

/-- What the writer puts on one line holds no line break, and it reads back as the scalar's
value unless it is the value itself (the scalar was written plain) and that is either empty
inside a flow collection or holds a character YAML streams may not hold. -/
theorem encode_inline_reads_back (s : Scalar) (inFlow : Bool) (indent : Nat) (x : String)
    (written : s.encode inFlow indent = .inline x) :
    '\n' ∉ x.toList ∧ '\r' ∉ x.toList ∧
      (readInline inFlow x.toList = some s.value.toList ↔
        (x = s.value → (inFlow = false ∨ s.value ≠ "") ∧
          ∀ c ∈ s.value.toList, Yaml.isPrintable c = true)) := by
  have noBreak := encode_inline_no_break written
  refine ⟨fun h => by simpa [isBreak] using noBreak _ h,
    fun h => by simpa [isBreak] using noBreak _ h, ?_⟩
  rcases encode_inline_forms written with ⟨rfl, empty | safe⟩ | ⟨rfl, quotable⟩ | rfl
  · -- the empty value, written as nothing: only a mapping value may be nothing
    rw [empty]
    cases inFlow <;> simp [readInline]
  · obtain ⟨first, rest, chars, -⟩ := isPlainSafe_unquoted safe
    have nonempty : s.value ≠ "" := by
      intro h
      simp [h] at chars
    simp [readInline_plain_iff safe, nonempty]
  · simp [readInline_singleQuoted _ quotable, singleQuoted_ne]
  · simp [readInline_doubleQuoted, doubleQuoted_ne]

/-- A plain `a - b` inside a flow collection is written as itself and reads back. -/
theorem plainFlowSample_reads_back :
    ({ value := "a - b" } : Scalar).encode true 2 = .inline "a - b" ∧
      '\n' ∉ "a - b".toList ∧ '\r' ∉ "a - b".toList ∧
      (readInline true "a - b".toList = some "a - b".toList ↔
        ("a - b" = "a - b" → (true = false ∨ "a - b" ≠ "") ∧
          ∀ c ∈ "a - b".toList, Yaml.isPrintable c = true)) :=
  have written : ({ value := "a - b" } : Scalar).encode true 2 = .inline "a - b" := by
    decide +kernel
  ⟨written, encode_inline_reads_back _ true 2 "a - b" written⟩

theorem emptyFlowEntry_not_read_back :
    ({ value := "" } : Scalar).encode true 2 = .inline "" ∧
      readInline true ("" : String).toList ≠ some ("" : String).toList :=
  ⟨by decide +kernel, by decide +kernel⟩

end AnnotatedYaml
