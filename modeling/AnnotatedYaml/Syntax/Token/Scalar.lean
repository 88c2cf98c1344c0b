import AnnotatedYaml.Syntax.Token.Cursor

/-! Reading the tokens that carry text: anchors and aliases, tags, directives, and the five kinds of
scalars. -/

namespace AnnotatedYaml.Syntax.Lex

/-! ### Anchors, aliases and tags -/

def anchorName (acc : String) : Nat → Lex String
  | 0 => pure acc
  | n + 1 => do
    let c ← ch
    if isAnchorChar c then do skipNonBlank; anchorName (acc.push c) n else pure acc

def scanAnchor (isAlias : Bool) : Lex Token := do
  let start ← mark
  skipNonBlank
  let name ← anchorName "" ((← get).remaining + 1)
  if name.isEmpty then fail start .anchorEmpty
  let kind := if isAlias then TokenKind.alias name else TokenKind.anchor name
  return ⟨⟨start, ← mark⟩, kind⟩

/-- Decodes `%XX` escapes of one UTF-8 sequence, combining the bytes into one code as the
lexer has always done. -/
def uriEscape (start : Mark) : Lex Char := do
  let rec go : Nat → Nat → Nat → Lex Nat
    | 0, _, code => pure code
    | fuel + 1, width, code => do
      let c ← look 1
      let d ← look 2
      if !((← ch) == '%' && isHexDigit c && isHexDigit d) then fail start .uriEscape
      let byte := hexValue c * 16 + hexValue d
      let (width, code) ← if width == 0 then do
          let w ← if byte &&& 0x80 == 0 then pure 1
            else if byte &&& 0xE0 == 0xC0 then pure 2
            else if byte &&& 0xF0 == 0xE0 then pure 3
            else if byte &&& 0xF8 == 0xF0 then pure 4
            else fail start .uriLeadByte
          pure (w, byte)
        else do
          if byte &&& 0xC0 != 0x80 then fail start .uriTrailByte
          pure (width, code * 256 + byte)
      skipNonBlanks 3
      if width - 1 == 0 then pure code else go fuel (width - 1) code
  let code ← go 4 0 0
  if code.isValidChar then pure (Char.ofNat code) else fail start .uriCodePoint

/-- Reads `!`, `!!` or `!word!`; in a directive the closing `!` is required. -/
def tagHandle (directive : Bool) (start : Mark) : Lex String := do
  if (← ch) != '!' then fail start (if directive then .tagBang else .tagBang)
  skipNonBlank
  let rec word (acc : String) : Nat → Lex String
    | 0 => pure acc
    | n + 1 => do
      let c ← ch
      if isWordChar c then do skipNonBlank; word (acc.push c) n else pure acc
  let s ← word "!" ((← get).remaining + 1)
  if (← ch) == '!' then
    skipNonBlank
    return s.push '!'
  if directive && s != "!" then fail start .tagDirectiveBang
  return s

/-- Reads characters while `ok` holds, decoding `%` escapes. -/
def uriChars (ok : Char → Bool) (start : Mark) (acc : String) : Nat → Lex (String × Nat)
  | 0 => pure (acc, 0)
  | n + 1 => do
    let c ← ch
    if !ok c then return (acc, 0)
    let acc ← if c == '%' then do pure (acc.push (← uriEscape start))
      else do skipNonBlank; pure (acc.push c)
    let (s, k) ← uriChars ok start acc n
    return (s, k + 1)

def tagSuffix (head : String) (start : Mark) : Lex String := do
  let (s, k) ← uriChars isTagChar start (String.ofList (head.toList.drop 1))
    ((← get).remaining + 1)
  if head.length + k == 0 then fail start .tagUriMissing
  return s

def verbatimTag (start : Mark) : Lex String := do
  skipNonBlanks 2
  let (s, _) ← uriChars isUriChar start "" ((← get).remaining + 1)
  if (← ch) != '>' then fail start .verbatimEnd
  skipNonBlank
  return s

/-- Reads a tag: `!<uri>`, `!handle!suffix`, `!suffix`, or the lone `!`. -/
def scanTag : Lex Token := do
  let start ← mark
  let (handle, suffix) ← if (← look 1) == '<' then do
      pure ("", ← verbatimTag start)
    else do
      let handle ← tagHandle false start
      if handle.length ≥ 2 && handle.startsWith "!" && handle.endsWith "!" then
        pure (handle, ← tagSuffix "" start)
      else
        let suffix ← tagSuffix handle start
        if suffix.isEmpty then pure ("", "!") else pure ("!", suffix)
  let c ← ch
  if isSeparator c || ((← get).flowLevel > 0 && isFlowIndicator c) then
    return ⟨⟨start, ← mark⟩, .tag handle suffix⟩
  fail start .tagEnd

/-! ### Directives -/

def skipBlanks : Lex Unit :=
  repeatWhile do
    if isBlank (← ch) then do skipBlank; return true
    return false

/-- Reads a directive's name; a fault is placed at the name's first character. -/
def directiveName : Lex String := do
  let start ← mark
  let rec word (acc : String) : Nat → Lex String
    | 0 => pure acc
    | n + 1 => do
      let c ← ch
      if isWordChar c then do skipNonBlank; word (acc.push c) n else pure acc
  let s ← word "" ((← get).remaining + 1)
  if s.isEmpty then fail start .directiveName
  if !isSeparator (← ch) then fail start .directiveNameChar
  return s

def versionNumber (start : Mark) : Lex Nat := do
  let rec go (value length : Nat) : Nat → Lex (Nat × Nat)
    | 0 => pure (value, length)
    | n + 1 => do
      let c ← ch
      if !isDigit c then return (value, length)
      if length + 1 > 9 then fail start .versionTooLong
      skipNonBlank
      go (value * 10 + (c.toNat - '0'.toNat)) (length + 1) n
  let (value, length) ← go 0 0 ((← get).remaining + 1)
  if length == 0 then fail start .versionMissing
  return value

def versionDirective (start : Mark) : Lex Token := do
  skipBlanks
  let major ← versionNumber start
  if (← ch) != '.' then fail start .versionDot
  skipNonBlank
  let minor ← versionNumber start
  return ⟨⟨start, ← mark⟩, .versionDirective major minor⟩

def tagDirectivePrefix (start : Mark) : Lex String := do
  let c ← ch
  let first ← if c == '!' then do skipNonBlank; pure "!"
    else if !isTagChar c then fail start .globalTagChar
    else if c == '%' then do pure (← uriEscape start).toString
    else do skipNonBlank; pure c.toString
  let (s, _) ← uriChars isUriChar start first ((← get).remaining + 1)
  return s

def tagDirective (start : Mark) : Lex Token := do
  skipBlanks
  let handle ← tagHandle true start
  skipBlanks
  let target ← tagDirectivePrefix start
  if isSeparator (← ch) then return ⟨⟨start, ← mark⟩, .tagDirective handle target⟩
  fail start .tagDirectiveEnd

/-- Reads a `%` directive line. An unknown directive is skipped and gives an empty tag
directive. -/
def scanDirective : Lex Token := do
  let start ← mark
  skipNonBlank
  let name ← directiveName
  let tok ← if name == "YAML" then versionDirective start
    else if name == "TAG" then tagDirective start
    else do
      skipNonBlanksToLineEnd
      pure ⟨⟨start, ← mark⟩, .tagDirective "" ""⟩
  let _ ← skipWsToEol true
  if !isBreakOrEnd (← ch) then fail start .directiveEnd
  if isBreak (← ch) then skipLineBreak
  return tok

/-! ### Quoted scalars -/

/-- Reads a backslash escape of a double-quoted scalar. -/
def escape (start : Mark) : Lex Char := do
  let simple : Option Char := match ← look 1 with
    | '0' => some '\x00' | 'a' => some '\x07' | 'b' => some '\x08'
    | 't' => some '\t' | '\t' => some '\t' | 'n' => some '\n' | 'v' => some '\x0b'
    | 'f' => some '\x0c' | 'r' => some '\r' | 'e' => some '\x1b' | ' ' => some ' '
    | '"' => some '"' | '/' => some '/' | '\\' => some '\\'
    | 'N' => some '\x85' | '_' => some '\xa0' | 'L' => some '\u2028' | 'P' => some '\u2029'
    | _ => none
  let width : Nat := match ← look 1 with
    | 'x' => 2 | 'u' => 4 | 'U' => 8 | _ => 0
  match simple with
  | some c => do skipNonBlanks 2; return c
  | none =>
    if width == 0 then fail start .unknownEscape
    skipNonBlanks 2
    let mut value := 0
    for i in [0:width] do
      let c ← look i
      if !isHexDigit c then fail start .escapeDigits
      value := value * 16 + hexValue c
    if !value.isValidChar then fail start .escapeCodePoint
    skipNonBlanks width
    return Char.ofNat value

/-- Reads the non-blank characters of a quoted scalar up to a blank, a break or the closing
quote. Answers the text and whether an escaped line break was met. -/
def quotedRun (single : Bool) (start : Mark) (acc : String) : Nat → Lex (String × Bool)
  | 0 => pure (acc, false)
  | n + 1 => do
    let c ← ch
    if isSeparator c then return (acc, false)
    let d ← look 1
    if c == '\'' && d == '\'' && single then
      skipNonBlanks 2; quotedRun single start (acc.push '\'') n
    else if c == '\'' && single then return (acc, false)
    else if c == '"' && !single then return (acc, false)
    else if c == '\\' && !single && isBreak d then
      skipNonBlank; skipLineBreak; return (acc, true)
    else if c == '\\' && !single then
      let e ← escape start
      quotedRun single start (acc.push e) n
    else do skipNonBlank; quotedRun single start (acc.push c) n

/-- What a quoted scalar holds between its runs of characters. -/
structure Gap where
  whitespaces : String := ""
  leadingBreak : String := ""
  trailingBreaks : String := ""
  leadingBlanks : Bool := false

/-- Reads the blanks and breaks between two runs of a quoted scalar. -/
def quotedGap (g : Gap) : Nat → Lex Gap
  | 0 => pure g
  | n + 1 => do
    let c ← ch
    if isBlank c then
      if g.leadingBlanks then
        let l ← get
        if c == '\t' && (l.mark.col : Int) < l.indent then fail l.mark .quotedTab
        skipBlank; quotedGap g n
      else do skipBlank; quotedGap { g with whitespaces := g.whitespaces.push c } n
    else if isBreak c then
      if g.leadingBlanks then do
        let t ← readBreak g.trailingBreaks
        quotedGap { g with trailingBreaks := t } n
      else do
        let b ← readBreak g.leadingBreak
        quotedGap { g with whitespaces := "", leadingBreak := b, leadingBlanks := true } n
    else pure g

/-- Folds a gap into the scalar: a lone line break becomes a space, further breaks stay. -/
def Gap.join (g : Gap) (acc : String) : String × Gap :=
  if g.leadingBlanks then
    if g.leadingBreak.isEmpty then
      (acc ++ g.leadingBreak ++ g.trailingBreaks, { g with trailingBreaks := "", leadingBreak := "" })
    else if g.trailingBreaks.isEmpty then
      (acc.push ' ', { g with leadingBreak := "" })
    else (acc ++ g.trailingBreaks, { g with trailingBreaks := "", leadingBreak := "" })
  else (acc ++ g.whitespaces, { g with whitespaces := "" })

def quotedBody (single : Bool) (start : Mark) (acc : String) (g : Gap) : Nat → Lex String
  | 0 => pure acc
  | n + 1 => do
    let l ← get
    if l.mark.col == 0 && (← atDocumentIndicator) then fail start .quotedDocumentIndicator
    if isEnd (← ch) then fail start .quotedEnd
    if (l.mark.col : Int) < l.indent then fail start .quotedIndentation
    let (acc, escapedBreak) ← quotedRun single start acc ((← get).remaining + 1)
    let g := { g with leadingBlanks := escapedBreak }
    let c ← ch
    if (c == '\'' && single) || (c == '"' && !single) then return acc
    let g ← quotedGap g ((← get).remaining + 1)
    let (acc, g) := g.join acc
    quotedBody single start acc g n

/-- Reads a single- or double-quoted scalar; only blanks, a comment, a line break, a flow
indicator in flow context or a key's `:` may follow it. -/
def scanQuoted (single : Bool) : Lex Token := do
  let start ← mark
  skipNonBlank
  let value ← quotedBody single start "" {} ((← get).remaining + 1)
  skipNonBlank
  let _ ← skipWsToEol true
  let l ← get
  let c ← ch
  let fine := ((c == ',' || c == '}' || c == ']') && l.flowLevel > 0) || isBreakOrEnd c ||
    (c == ':' && l.flowLevel == 0 && start.line == l.mark.line) ||
    (c == ':' && l.flowLevel > 0)
  if !fine then fail l.mark .quotedTrailing
  let style := if single then ScalarStyle.singleQuoted else .doubleQuoted
  return ⟨⟨start, l.mark⟩, .scalar style value⟩

/-! ### Plain scalars -/

/-- What a plain scalar holds between its runs of characters. -/
structure PlainGap where
  whitespaces : String := ""
  leadingBreak : String := ""
  trailingBreaks : String := ""

def plainRun (inFlow : Bool) (acc : String) : Nat → Lex String
  | 0 => pure acc
  | n + 1 => do
    let c ← ch
    if isSeparator c || !(← canContinuePlain inFlow) then return acc
    skipNonBlank
    plainRun inFlow (acc.push c) n

/-- Reads blanks and breaks after a run of a plain scalar. -/
def plainGap (indent : Int) (start : Mark) (g : PlainGap) : Nat → Lex PlainGap
  | 0 => pure g
  | n + 1 => do
    let c ← ch
    let l ← get
    if isBlank c then
      if !l.leadingBlank then do
        skipBlank; plainGap indent start { g with whitespaces := g.whitespaces.push c } n
      else if (l.mark.col : Int) < indent && c == '\t' then do
        let _ ← skipWsToEol true
        if !isBreakOrEnd (← ch) then fail start .plainTab
        plainGap indent start g n
      else do skipBlank; plainGap indent start g n
    else if isBreak c then
      if l.leadingBlank then do
        let t ← readBreak g.trailingBreaks
        plainGap indent start { g with trailingBreaks := t } n
      else do
        let b ← readBreak g.leadingBreak
        plainGap indent start { g with whitespaces := "", leadingBreak := b } n
    else pure g

def plainBody (indent : Int) (start : Mark) (acc : String) (g : PlainGap) (stop : Mark) :
    Nat → Lex (String × Mark)
  | 0 => pure (acc, stop)
  | n + 1 => do
    let l ← get
    if (l.leadingBlank && (← atDocumentIndicator)) || (← ch) == '#' then return (acc, stop)
    let inFlow := l.flowLevel > 0
    if inFlow && (← ch) == '-' && isFlowIndicator (← look 1) then fail l.mark .dashBeforeFlow
    let (acc, g, stop) ← if !isSeparator (← ch) && (← canContinuePlain inFlow) then do
        let (acc, g) :=
          if l.leadingBlank then
            if g.leadingBreak.isEmpty then
              (acc ++ g.leadingBreak ++ g.trailingBreaks, { g with trailingBreaks := "" })
            else if g.trailingBreaks.isEmpty then (acc.push ' ', { g with leadingBreak := "" })
            else (acc ++ g.trailingBreaks, { g with trailingBreaks := "", leadingBreak := "" })
          else if !g.whitespaces.isEmpty then (acc ++ g.whitespaces, { g with whitespaces := "" })
          else (acc, g)
        modify fun l => { l with leadingBlank := false }
        let acc ← plainRun inFlow acc ((← get).remaining + 1)
        pure (acc, g, ← mark)
      else pure (acc, g, stop)
    let c ← ch
    if !(isBlank c || isBreak c) then return (acc, stop)
    let g ← plainGap indent start g ((← get).remaining + 1)
    let l ← get
    if l.flowLevel == 0 && (l.mark.col : Int) < indent then return (acc, stop)
    plainBody indent start acc g stop n

/-- Reads a plain scalar. Outside flow collections it may go on over lines indented deeper
than the enclosing block; its span ends after its last non-blank character. -/
def scanPlain : Lex Token := do
  unrollGuardLevels
  let l ← get
  let indent := l.indent + 1
  let start := l.mark
  if l.flowLevel > 0 && (start.col : Int) < indent then fail start .flowIndentation
  let (value, stop) ← plainBody indent start "" {} start ((← get).remaining + 1)
  if (← get).leadingBlank then allowKey
  if value.isEmpty then fail start .plainEmpty
  return ⟨⟨start, stop⟩, .scalar .plain value⟩

/-! ### Block scalars -/

inductive Chomping where
  | strip
  | clip
  | keep
  deriving BEq, Inhabited

/-- Skips the indentation of the lines before the first content line, returning the
detected indentation and the breaks met. -/
def firstLineIndent (breaks : String) (most : Nat) : Nat → Lex (Nat × String)
  | 0 => pure (most, breaks)
  | n + 1 => do
    repeatWhile do
      if (← ch) == ' ' then do skipBlank; return true
      return false
    let l ← get
    let most := max most l.mark.col
    if isBreak (← ch) then
      let breaks ← readBreak breaks
      firstLineIndent breaks most n
    else pure (most, breaks)

/-- Skips up to `indent` spaces on each line, collecting the breaks of empty lines. -/
def blockIndent (indent : Nat) (breaks : String) : Nat → Lex String
  | 0 => pure breaks
  | n + 1 => do
    repeatWhile do
      if (← get).mark.col < indent && (← ch) == ' ' then do skipBlank; return true
      return false
    if isBreak (← ch) then
      let breaks ← readBreak breaks
      blockIndent indent breaks n
    else pure breaks

structure BlockLines where
  text : String := ""
  leadingBreak : String := ""
  trailingBreaks : String := ""
  leadingBlank : Bool := false

def blockBody (literal : Bool) (indent : Nat) (b : BlockLines) : Nat → Lex BlockLines
  | 0 => pure b
  | n + 1 => do
    if (← get).mark.col != indent || isEnd (← ch) then return b
    if indent == 0 && (← atDocumentEnd) then return b
    let trailingBlank := isBlank (← ch)
    let text :=
      if !literal && !b.leadingBreak.isEmpty && !b.leadingBlank && !trailingBlank then
        if b.trailingBreaks.isEmpty then (b.text ++ b.trailingBreaks).push ' '
        else b.text ++ b.trailingBreaks
      else b.text ++ b.leadingBreak ++ b.trailingBreaks
    let leadingBlank := isBlank (← ch)
    let rec line (acc : String) : Nat → Lex String
      | 0 => pure acc
      | k + 1 => do
        let c ← ch
        if isBreakOrEnd c then return acc
        skipBlank
        line (acc.push c) k
    let text ← line text ((← get).remaining + 1)
    let b := { b with text, leadingBreak := "", trailingBreaks := "", leadingBlank }
    if isEnd (← ch) then return b
    let leadingBreak ← readBreak ""
    let trailingBreaks ← blockIndent indent "" ((← get).remaining + 1)
    blockBody literal indent { b with leadingBreak, trailingBreaks } n

/-- Reads a literal (`|`) or folded (`>`) block scalar with its header. The span starts at
the first content line. -/
def scanBlock (literal : Bool) : Lex Token := do
  let start ← mark
  skipNonBlank
  unrollGuardLevels
  let mut chomping := Chomping.clip
  let mut increment := 0
  let c ← ch
  if c == '+' || c == '-' then
    chomping := if c == '+' then .keep else .strip
    skipNonBlank
    let d ← ch
    if isDigit d then
      if d == '0' then fail start .indicatorZero
      increment := d.toNat - '0'.toNat
      skipNonBlank
  else if isDigit c then
    if c == '0' then fail start .indicatorZero
    increment := c.toNat - '0'.toNat
    skipNonBlank
    let d ← ch
    if d == '+' || d == '-' then
      chomping := if d == '+' then .keep else .strip
      skipNonBlank
  let _ ← skipWsToEol true
  if !isBreakOrEnd (← ch) then fail start .blockHeaderEnd
  let chompingBreak ← if isBreak (← ch) then readBreak "" else pure ""
  if (← ch) == '\t' then fail start .blockTab
  let l ← get
  let fixed : Nat :=
    if increment > 0 then (if l.indent ≥ 0 then (l.indent + increment).toNat else increment)
    else 0
  let (indent, trailingBreaks) ← if fixed == 0 then do
      let (most, breaks) ← firstLineIndent "" 0 ((← get).remaining + 1)
      let l ← get
      let indent := max most (l.indent + 1).toNat
      let indent := if l.indent > 0 then max indent 1 else indent
      pure (indent, breaks)
    else do
      let breaks ← blockIndent fixed "" ((← get).remaining + 1)
      pure (fixed, breaks)
  let style := if literal then ScalarStyle.literal else .folded
  let l ← get
  if isEnd (← ch) then
    let contents :=
      if chomping == .strip then ""
      else if l.mark.line == start.line then ""
      else if chomping == .clip then chompingBreak
      else if trailingBreaks.isEmpty then chompingBreak
      else trailingBreaks
    return ⟨⟨start, l.mark⟩, .scalar style contents⟩
  if l.mark.col < indent && (l.mark.col : Int) > l.indent then fail l.mark .blockIndentation
  let bodyStart := l.mark
  let b ← blockBody literal indent { trailingBreaks } ((← get).remaining + 1)
  let l ← get
  let mut text := b.text
  if chomping != .strip then
    text := text ++ b.leadingBreak
    if isEnd (← ch) && l.mark.col ≥ max indent 1 then text := text.push '\n'
  if chomping == .keep then text := text ++ b.trailingBreaks
  return ⟨⟨bodyStart, l.mark⟩, .scalar style text⟩

end AnnotatedYaml.Syntax.Lex
