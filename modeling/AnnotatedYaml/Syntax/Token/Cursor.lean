import AnnotatedYaml.Syntax.Token

/-! The lexer's state and its elementary moves. -/

namespace AnnotatedYaml.Syntax

/-- A place where an implicit key may have started: if a `:` follows on time, a key token is
inserted in front of the token numbered `tokenNumber`. -/
structure SimpleKey where
  possible : Bool := false
  required : Bool := false
  tokenNumber : Nat := 0
  mark : Mark := ⟨0, 0, 0⟩
  deriving Repr, Inhabited

/-- A saved indentation level; `needsBlockEnd` is false for the one-column levels that
only guard a value's indentation and close without a token. -/
structure IndentLevel where
  column : Int
  needsBlockEnd : Bool
  deriving Repr, Inhabited

/-- Tokens read but not yet handed out, oldest first: `items` from place `head` on. -/
structure TokenQueue where
  items : Array Token := #[]
  head : Nat := 0
  deriving Inhabited

namespace TokenQueue

def length (q : TokenQueue) : Nat := q.items.size - q.head

def isEmpty (q : TokenQueue) : Bool := q.items.size ≤ q.head

def push (q : TokenQueue) (t : Token) : TokenQueue := { q with items := q.items.push t }

/-- Puts `t` at place `k` among the waiting tokens; past the end nothing changes. -/
def insertAt (q : TokenQueue) (k : Nat) (t : Token) : TokenQueue :=
  { q with items := q.items.insertIdxIfInBounds (q.head + k) t }

def last? (q : TokenQueue) : Option Token := if q.isEmpty then none else q.items.back?

def pop? (q : TokenQueue) : Option (Token × TokenQueue) :=
  match q.items[q.head]? with
  | none => none
  | some t => some (t, if q.head + 1 ≥ q.items.size then {} else { q with head := q.head + 1 })

def toList (q : TokenQueue) : List Token := (q.items.extract q.head q.items.size).toList

end TokenQueue

structure Lexer where
  text : Array Char
  pos : Nat := 0
  mark : Mark := ⟨0, 1, 0⟩
  queue : TokenQueue := {}
  started : Bool := false
  ended : Bool := false
  adjacentValueAt : Nat := 0
  keyAllowed : Bool := false
  /-- Innermost flow level first. -/
  keys : List SimpleKey := []
  indent : Int := -1
  /-- Innermost level first. -/
  indents : List IndentLevel := []
  flowLevel : Nat := 0
  tokensTaken : Nat := 0
  tokenReady : Bool := false
  leadingBlank : Bool := true
  flowMappingStarted : Bool := false
  /-- One flag per open flow sequence, innermost first: whether an implicit mapping is open
  inside it. -/
  implicitMappings : List Bool := []
  deriving Inhabited

namespace Lexer

def ofString (s : String) : Lexer := { text := s.toList.toArray }

def look (l : Lexer) (k : Nat) : Char := l.text.getD (l.pos + k) '\x00'

def remaining (l : Lexer) : Nat := l.text.size - l.pos

def stepOver (l : Lexer) : Lexer :=
  { l with pos := l.pos + 1,
           mark := { l.mark with index := l.mark.index + 1, col := l.mark.col + 1 } }

def lineBreakOver (l : Lexer) : Lexer :=
  { l with pos := l.pos + 1, leadingBlank := true,
           mark := { index := l.mark.index + 1, line := l.mark.line + 1, col := 0 } }

end Lexer

abbrev Lex := StateT Lexer (Except SyntaxError)

namespace Lex

def fail {α : Type} (m : Mark) (fault : Fault) : Lex α := throw ⟨m, fault⟩

def look (k : Nat) : Lex Char := return (← get).look k

def ch : Lex Char := look 0

def mark : Lex Mark := return (← get).mark

/-- Steps over a blank; the line's leading blank run is not ended. -/
def skipBlank : Lex Unit := modify Lexer.stepOver

/-- Steps over a character that ends the line's leading blank run. -/
def skipNonBlank : Lex Unit := modify fun l => { l.stepOver with leadingBlank := false }

def skipNonBlanks : Nat → Lex Unit
  | 0 => pure ()
  | n + 1 => do skipNonBlank; skipNonBlanks n

def skipNewline : Lex Unit := modify Lexer.lineBreakOver

/-- Steps over one line break, `\r\n` counting as one. -/
def skipLineBreak : Lex Unit := do
  if (← look 0) == '\r' && (← look 1) == '\n' then
    skipBlank; skipNewline
  else if isBreak (← look 0) then
    skipNewline

/-- Steps over one line break and adds a newline to `s`. -/
def readBreak (s : String) : Lex String := do
  if (← look 0) == '\r' && (← look 1) == '\n' then skipBlank
  skipNewline
  return s.push '\n'

def allowKey : Lex Unit := modify fun l => { l with keyAllowed := true }

def disallowKey : Lex Unit := modify fun l => { l with keyAllowed := false }

def push (t : Token) : Lex Unit := modify fun l => { l with queue := l.queue.push t }

/-- Runs `step` while it answers `true`. Every round that goes on consumes a character, so
the characters left bound the rounds. -/
def repeatWhile (step : Lex Bool) : Lex Unit := do
  go ((← get).remaining + 1)
where
  go : Nat → Lex Unit
    | 0 => pure ()
    | n + 1 => do if ← step then go n

/-- Steps over characters up to the end of the line, without ending the leading blank run. -/
def skipToLineEnd : Lex Unit :=
  repeatWhile do
    if isBreakOrEnd (← ch) then return false
    skipBlank
    return true

def skipNonBlanksToLineEnd : Lex Unit :=
  repeatWhile do
    if isBreakOrEnd (← ch) then return false
    skipNonBlank
    return true

/-- Skips blanks and a comment up to the line's end, tabs only if `tabs`. Answers whether a
tab and whether a space was met. A comment needs a blank before it, and skipping it leaves
the line's leading blank run as it was. -/
def skipWsToEol (tabs : Bool) : Lex (Bool × Bool) := do
  go ((← get).remaining + 1) false false
where
  go : Nat → Bool → Bool → Lex (Bool × Bool)
    | 0, t, w => pure (t, w)
    | n + 1, t, w => do
      match ← ch with
      | ' ' => skipBlank; go n t true
      | '\t' => if tabs then do skipBlank; go n true w else pure (t, w)
      | '#' =>
        if !t && !w then fail (← mark) .commentWithoutSpace
        else do skipToLineEnd; go n t w
      | _ => pure (t, w)

/-- Skips spaces, line breaks and comments after a `?`; at least one must come. -/
def skipSeparation : Lex Unit := do
  if ← go ((← get).remaining + 1) true then fail (← mark) .spaceExpected
where
  go : Nat → Bool → Lex Bool
    | 0, need => pure need
    | n + 1, need => do
      match ← ch with
      | ' ' => skipBlank; go n false
      | '\n' | '\r' =>
        skipLineBreak
        if (← get).flowLevel == 0 then allowKey
        go n false
      | '#' => skipToLineEnd; go n need
      | _ => pure need

/-- Whether the next four characters are `---` or `...` followed by a separator. -/
def atDocumentIndicator : Lex Bool := do
  let c ← look 0
  return (c == '-' || c == '.') && (← look 1) == c && (← look 2) == c &&
    isSeparator (← look 3)

def atDocumentStart : Lex Bool := do
  return (← look 0) == '-' && (← atDocumentIndicator)

def atDocumentEnd : Lex Bool := do
  return (← look 0) == '.' && (← atDocumentIndicator)

/-- Whether the next character may go on a plain scalar. -/
def canContinuePlain (inFlow : Bool) : Lex Bool := do
  let c ← look 0
  let d ← look 1
  if c == ':' && (isSeparator d || (inFlow && isFlowIndicator d)) then return false
  return !(inFlow && isFlowIndicator c)

/-! ### Simple keys and indentation -/

/-- Notes that a simple key may start here. It is required when it stands at the column of
an open block collection, since nothing else could continue that collection. -/
def saveSimpleKey : Lex Unit := modify fun l =>
  if l.keyAllowed then
    let required := l.flowLevel == 0 && l.indent == (l.mark.col : Int) &&
      (l.indents.head?.map (·.needsBlockEnd)).getD false
    let k : SimpleKey :=
      { possible := true, required, tokenNumber := l.tokensTaken + l.queue.length,
        mark := l.mark }
    { l with keys := k :: l.keys.tail }
  else l

def removeSimpleKey : Lex Unit := do
  let l ← get
  match l.keys with
  | k :: rest =>
    if k.possible && k.required then fail l.mark .missingKey
    set { l with keys := { k with possible := false } :: rest }
  | [] => pure ()

/-- Outside flow collections a simple key must end on its line and within 1024 characters. -/
def staleSimpleKeys : Lex Unit := do
  let l ← get
  let keys ← l.keys.mapM fun k => do
    if k.possible && l.flowLevel == 0 &&
        (k.mark.line < l.mark.line || k.mark.index + 1024 < l.mark.index) then
      if k.required then fail l.mark .staleKey
      pure { k with possible := false }
    else pure k
  set { l with keys }

/-- Opens a block collection at column `col` if it is deeper than the current level, with its
start token put at queue place `number` (counted over all tokens) or at the end. -/
def rollIndent (col : Nat) (number : Option Nat) (kind : TokenKind) (place : Mark) :
    Lex Unit := modify fun l =>
  if l.flowLevel > 0 then l
  else
    let l := if l.indent ≤ (col : Int) then
        match l.indents with
        | i :: rest => if !i.needsBlockEnd then { l with indent := i.column, indents := rest } else l
        | [] => l
      else l
    if l.indent < (col : Int) then
      let tok : Token := ⟨Span.empty place, kind⟩
      let queue := match number with
        | some n => l.queue.insertAt (n - l.tokensTaken) tok
        | none => l.queue.push tok
      { l with indents := ⟨l.indent, true⟩ :: l.indents, indent := col, queue }
    else l

/-- Closes the levels deeper than `col`, a block-end token for each real collection. -/
def closeLevels (col : Int) (place : Mark) :
    Int → List IndentLevel → TokenQueue → Int × List IndentLevel × TokenQueue
  | indent, i :: rest, out =>
    if indent > col then
      closeLevels col place i.column rest
        (if i.needsBlockEnd then out.push ⟨Span.empty place, .blockEnd⟩ else out)
    else (indent, i :: rest, out)
  | indent, [], out => (indent, [], out)

def unrollIndent (col : Int) : Lex Unit := modify fun l =>
  if l.flowLevel > 0 then l
  else
    let (indent, indents, queue) := closeLevels col l.mark l.indent l.indents l.queue
    { l with indent, indents, queue }

/-- After a value indicator or an entry that ends its line, the content must be indented one
column more; this level closes without a token. -/
def rollOneColIndent : Lex Unit := modify fun l =>
  if l.flowLevel == 0 && (l.indents.head?.map (·.needsBlockEnd)).getD false then
    { l with indents := ⟨l.indent, false⟩ :: l.indents, indent := l.indent + 1 }
  else l

def dropGuardLevels : Int → List IndentLevel → Int × List IndentLevel
  | indent, i :: rest => if i.needsBlockEnd then (indent, i :: rest) else dropGuardLevels i.column rest
  | indent, [] => (indent, [])

def unrollGuardLevels : Lex Unit := modify fun l =>
  let (indent, indents) := dropGuardLevels l.indent l.indents
  { l with indent, indents }

def increaseFlowLevel : Lex Unit := do
  let l ← get
  if l.flowLevel ≥ 255 then fail l.mark .nestingTooDeep
  set { l with keys := ({} : SimpleKey) :: l.keys, flowLevel := l.flowLevel + 1 }

def decreaseFlowLevel : Lex Unit := modify fun l =>
  if l.flowLevel > 0 then { l with flowLevel := l.flowLevel - 1, keys := l.keys.tail } else l

/-- Closes an implicit mapping open inside the innermost flow sequence. -/
def endImplicitMapping (place : Mark) : Lex Unit := modify fun l =>
  match l.implicitMappings with
  | true :: rest =>
    { l with flowMappingStarted := false, implicitMappings := false :: rest,
             queue := l.queue.push ⟨Span.empty place, .flowMappingEnd⟩ }
  | _ => l

end Lex

end AnnotatedYaml.Syntax
