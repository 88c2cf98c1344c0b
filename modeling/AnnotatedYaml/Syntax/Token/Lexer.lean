import AnnotatedYaml.Syntax.Token.Scalar

/-! The token stream of a YAML text. -/

namespace AnnotatedYaml.Syntax.Lex

def fetchStreamStart : Lex Unit := modify fun l =>
  { l with indent := -1, started := true, keyAllowed := true,
           queue := l.queue.push ⟨Span.empty l.mark, .streamStart⟩,
           keys := ({} : SimpleKey) :: l.keys }

def fetchStreamEnd : Lex Unit := do
  let l ← get
  let l := if l.mark.col != 0 then { l with mark := { l.mark with col := 0, line := l.mark.line + 1 } }
    else l
  if l.keys.any (fun k => k.required && k.possible) then fail l.mark .missingKey
  set { l with keys := l.keys.map fun (k : SimpleKey) => { k with possible := false } }
  unrollIndent (-1)
  removeSimpleKey
  disallowKey
  push ⟨Span.empty (← mark), .streamEnd⟩

def fetchDirective : Lex Unit := do
  unrollIndent (-1)
  removeSimpleKey
  disallowKey
  push (← scanDirective)

def fetchDocumentIndicator (kind : TokenKind) : Lex Unit := do
  unrollIndent (-1)
  removeSimpleKey
  disallowKey
  let start ← mark
  skipNonBlanks 3
  push ⟨⟨start, ← mark⟩, kind⟩

def fetchFlowCollectionStart (mapping : Bool) : Lex Unit := do
  saveSimpleKey
  rollOneColIndent
  increaseFlowLevel
  allowKey
  let start ← mark
  skipNonBlank
  if mapping then modify fun l => { l with flowMappingStarted := true }
  else modify fun l => { l with implicitMappings := false :: l.implicitMappings }
  let _ ← skipWsToEol true
  push ⟨⟨start, ← mark⟩, if mapping then .flowMappingStart else .flowSequenceStart⟩

def fetchFlowCollectionEnd (mapping : Bool) : Lex Unit := do
  removeSimpleKey
  decreaseFlowLevel
  disallowKey
  if !mapping then
    endImplicitMapping (← mark)
    modify fun l => { l with implicitMappings := l.implicitMappings.tail }
  let start ← mark
  skipNonBlank
  let _ ← skipWsToEol true
  let l ← get
  if l.flowLevel > 0 then set { l with adjacentValueAt := l.mark.index }
  push ⟨⟨start, ← mark⟩, if mapping then .flowMappingEnd else .flowSequenceEnd⟩

def fetchFlowEntry : Lex Unit := do
  removeSimpleKey
  allowKey
  endImplicitMapping (← mark)
  let start ← mark
  skipNonBlank
  let _ ← skipWsToEol true
  push ⟨⟨start, ← mark⟩, .flowEntry⟩

def fetchBlockEntry : Lex Unit := do
  let l ← get
  if l.flowLevel > 0 then fail l.mark .entryInFlow
  if !l.keyAllowed then fail l.mark .entryNotAllowed
  match l.queue.last? with
  | some ⟨span, .anchor _⟩ | some ⟨span, .tag _ _⟩ =>
    if l.mark.col == 0 && span.start.col == 0 && l.indent > -1 then
      fail span.start .anchorIndentation
  | _ => pure ()
  let start ← mark
  skipNonBlank
  rollIndent start.col none .blockSequenceStart start
  let (tabs, _) ← skipWsToEol true
  if tabs && (← ch) == '-' && isSeparator (← look 1) then fail (← mark) .entryNeedsSpace
  let _ ← skipWsToEol false
  let c ← ch
  if isBreak c || isFlowIndicator c then rollOneColIndent
  removeSimpleKey
  allowKey
  push ⟨Span.empty (← mark), .blockEntry⟩

def fetchKey : Lex Unit := do
  let start ← mark
  let l ← get
  if l.flowLevel == 0 then
    if !l.keyAllowed then fail l.mark .keyNotAllowed
    rollIndent start.col none .blockMappingStart start
  else modify fun l => { l with flowMappingStarted := true }
  removeSimpleKey
  if (← get).flowLevel == 0 then allowKey else disallowKey
  skipNonBlank
  skipSeparation
  if (← ch) == '\t' then fail (← mark) .tabAfterKey
  push ⟨⟨start, ← mark⟩, .key⟩

def fetchValue : Lex Unit := do
  let l ← get
  let sk := l.keys.head?.getD {}
  let start := l.mark
  let implicit := !l.implicitMappings.isEmpty && !l.flowMappingStarted
  if implicit then
    modify fun l => { l with implicitMappings := true :: l.implicitMappings.tail }
  skipNonBlank
  if (← ch) == '\t' then
    let (_, spaced) ← skipWsToEol true
    let c ← ch
    if !spaced && (c == '-' || isWordChar c) then fail (← mark) .colonNeedsSpace
  if sk.possible then
    let l ← get
    let place := sk.tokenNumber - l.tokensTaken
    set { l with queue := l.queue.insertAt place ⟨Span.empty sk.mark, .key⟩ }
    if implicit then
      if sk.mark.line < start.line then fail start .colonPlacement
      modify fun l =>
        { l with queue := l.queue.insertAt (sk.tokenNumber - l.tokensTaken)
                   ⟨Span.empty sk.mark, .flowMappingStart⟩ }
    rollIndent sk.mark.col (some sk.tokenNumber) .blockMappingStart sk.mark
    rollOneColIndent
    modify fun l => { l with keys := match l.keys with
      | k :: rest => { k with possible := false } :: rest
      | [] => [] }
    disallowKey
  else
    if implicit then push ⟨Span.empty start, .flowMappingStart⟩
    if (← get).flowLevel == 0 then
      if !(← get).keyAllowed then fail start .valueNotAllowed
      rollIndent start.col none .blockMappingStart start
    rollOneColIndent
    if (← get).flowLevel == 0 then allowKey else disallowKey
  push ⟨Span.empty start, .value⟩

def fetchFlowValue : Lex Unit := do
  let l ← get
  let d := l.look 1
  if l.mark.index != l.adjacentValueAt && (d == '[' || d == '{') then
    fail l.mark .colonBeforeOpening
  fetchValue

def fetchAnchor (isAlias : Bool) : Lex Unit := do
  saveSimpleKey
  disallowKey
  push (← scanAnchor isAlias)

def fetchTag : Lex Unit := do
  saveSimpleKey
  disallowKey
  push (← scanTag)

def fetchBlockScalar (literal : Bool) : Lex Unit := do
  saveSimpleKey
  allowKey
  push (← scanBlock literal)

/-- Skips blanks, line breaks and comments up to the next token. Tabs may not indent a
block: a tab before the current indentation is allowed only on an otherwise empty line. -/
def skipToNextToken : Lex Unit :=
  repeatWhile do
    let l ← get
    match l.look 0 with
    | '\t' =>
      if !l.indents.isEmpty && l.leadingBlank && (l.mark.col : Int) < l.indent then
        let _ ← skipWsToEol true
        if !isBreakOrEnd (← ch) then fail (← mark) .tabIndentation
        return true
      skipBlank
      return true
    | ' ' => skipBlank; return true
    | '\n' | '\r' =>
      skipLineBreak
      if (← get).flowLevel == 0 then allowKey
      return true
    | '#' => skipToLineEnd; return true
    | _ => return false

def fetchQuoted (single : Bool) : Lex Unit := do
  saveSimpleKey
  disallowKey
  let tok ← scanQuoted single
  skipToNextToken
  modify fun l => { l with adjacentValueAt := l.mark.index }
  push tok

def fetchPlain : Lex Unit := do
  saveSimpleKey
  disallowKey
  push (← scanPlain)

/-- Reads the next token (or several, when block levels close) onto the queue. -/
def fetchNextToken : Lex Unit := do
  if !(← get).started then
    fetchStreamStart
    return
  skipToNextToken
  staleSimpleKeys
  unrollIndent ((← mark).col : Int)
  let c ← ch
  if isEnd c then
    fetchStreamEnd
    return
  if (← mark).col == 0 then
    if c == '%' then
      fetchDirective
      return
    if ← atDocumentStart then
      fetchDocumentIndicator .documentStart
      return
    if ← atDocumentEnd then
      fetchDocumentIndicator .documentEnd
      let _ ← skipWsToEol true
      if !isBreakOrEnd (← ch) then fail (← mark) .contentAfterDocumentEnd
      return
  let l ← get
  if (l.mark.col : Int) < l.indent then fail l.mark .badIndentation
  let d := l.look 1
  match c with
  | '[' => fetchFlowCollectionStart false
  | '{' => fetchFlowCollectionStart true
  | ']' => fetchFlowCollectionEnd false
  | '}' => fetchFlowCollectionEnd true
  | ',' => fetchFlowEntry
  | '*' => fetchAnchor true
  | '&' => fetchAnchor false
  | '!' => fetchTag
  | '\'' => fetchQuoted true
  | '"' => fetchQuoted false
  | '%' | '@' | '\x60' => fail l.mark (.reservedChar c)
  | _ =>
    if c == '-' && isSeparator d then fetchBlockEntry
    else if c == '?' && isSeparator d then fetchKey
    else if c == ':' && isSeparator d then fetchValue
    else if c == ':' && l.flowLevel > 0 && (isFlowIndicator d || l.mark.index == l.adjacentValueAt)
      then fetchFlowValue
    else if c == '|' && l.flowLevel == 0 then fetchBlockScalar true
    else if c == '>' && l.flowLevel == 0 then fetchBlockScalar false
    else fetchPlain

/-- Reads tokens until the queue's head can no longer become part of a simple key. -/
def fetchMoreTokens : Lex Unit := do
  repeatWhile do
    let l ← get
    let needMore ← if l.queue.isEmpty then pure true
      else do
        staleSimpleKeys
        let l ← get
        pure (l.keys.any fun k => k.possible && k.tokenNumber == l.tokensTaken)
    if needMore then fetchNextToken
    return needMore
  modify fun l => { l with tokenReady := true }

end Lex

namespace Lexer

/-- The next token, or `none` once the stream-end token has been handed out. -/
def next : Lex (Option Token) := do
  if (← get).ended then return none
  if !(← get).tokenReady then Lex.fetchMoreTokens
  let l ← get
  match l.queue.pop? with
  | none => Lex.fail l.mark .noNextToken
  | some (t, rest) =>
    let ended := match t.kind with
      | .streamEnd => true
      | _ => false
    set { l with queue := rest, tokenReady := false, tokensTaken := l.tokensTaken + 1,
                 ended := l.ended || ended }
    return some t

end Lexer

end AnnotatedYaml.Syntax
