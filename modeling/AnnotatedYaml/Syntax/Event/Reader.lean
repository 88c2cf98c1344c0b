import AnnotatedYaml.Syntax.Event

/-! Reading events from tokens. -/

namespace AnnotatedYaml.Syntax

inductive Expect where
  | streamStart
  | implicitDocumentStart
  | documentStart
  | documentContent
  | documentEnd
  | blockNode
  | blockMappingFirstKey
  | blockMappingKey
  | blockMappingValue
  | blockSequenceFirstEntry
  | blockSequenceEntry
  | flowSequenceFirstEntry
  | flowSequenceEntry
  | flowMappingFirstKey
  | flowMappingKey
  | flowMappingValue
  | indentlessSequenceEntry
  | flowSequenceEntryMappingKey
  | flowSequenceEntryMappingValue
  | flowSequenceEntryMappingEnd
  | flowMappingEmptyValue
  | finished
  deriving Repr, BEq, Inhabited

structure Reader where
  lexer : Lexer
  states : List Expect := []
  state : Expect := .streamStart
  held : Option Token := none
  /-- Anchor names with their numbers, latest definition first. -/
  anchors : List (String × Nat) := []
  nextAnchor : Nat := 1
  /-- The current document's tag handles with their prefixes. -/
  tags : List (String × String) := []
  deriving Inhabited

abbrev Read := StateT Reader (Except SyntaxError)

namespace Read

def fail {α : Type} (m : Mark) (fault : Fault) : Read α := throw ⟨m, fault⟩

def peekToken : Read Token := do
  let r ← get
  match r.held with
  | some t => pure t
  | none =>
    match Lexer.next.run r.lexer with
    | .error e => throw e
    | .ok (some t, lexer) =>
      set { r with lexer, held := some t }
      pure t
    | .ok (none, lexer) =>
      set { r with lexer }
      fail lexer.mark .unexpectedEnd

def skip : Read Unit := modify fun r => { r with held := none }

def goTo (s : Expect) : Read Unit := modify fun r => { r with state := s }

def pushState (s : Expect) : Read Unit := modify fun r => { r with states := s :: r.states }

def popState : Read Unit := modify fun r =>
  match r.states with
  | s :: rest => { r with state := s, states := rest }
  | [] => r

def registerAnchor (name : String) : Read Nat := do
  let r ← get
  set { r with anchors := (name, r.nextAnchor) :: r.anchors, nextAnchor := r.nextAnchor + 1 }
  return r.nextAnchor

/-- Expands a tag's handle: `!!` to the YAML tag prefix unless redefined, a declared handle
to its prefix; a named handle `!x!` must be declared. -/
def resolveTag (place : Mark) (handle suffix : String) : Read Tag := do
  let tags := (← get).tags
  if handle == "!!" then return ⟨(tags.lookup "!!").getD "tag:yaml.org,2002:", suffix⟩
  if handle.isEmpty && suffix == "!" then return ⟨(tags.lookup "").getD "", suffix⟩
  match tags.lookup handle with
  | some p => return ⟨p, suffix⟩
  | none =>
    if handle.length ≥ 2 && handle.startsWith "!" && handle.endsWith "!" then
      fail place .undeclaredHandle
    return ⟨handle, suffix⟩

/-- Reads a node's properties, then its content or its first event. -/
def node (block indentless : Bool) : Read (Event × Span) := do
  let t ← peekToken
  if let .alias name := t.kind then
    popState
    skip
    match (← get).anchors.lookup name with
    | none => fail t.span.start .unknownAlias
    | some id => return (.alias id, t.span)
  let (anchor, tag) ← match t.kind with
    | .anchor name => do
      skip
      let id ← registerAnchor name
      let u ← peekToken
      match u.kind with
      | .tag h s => do
        skip
        pure (id, some (← resolveTag t.span.start h s))
      | _ => pure (id, none)
    | .tag h s => do
      skip
      let tag ← resolveTag t.span.start h s
      let u ← peekToken
      match u.kind with
      | .anchor name => do
        skip
        pure (← registerAnchor name, some tag)
      | _ => pure (0, some tag)
    | _ => pure (0, none)
  let t ← peekToken
  match t.kind with
  | .blockEntry =>
    if indentless then
      goTo .indentlessSequenceEntry
      return (.sequenceStart anchor tag, t.span)
  | .scalar style v =>
    popState
    skip
    return (.scalar v style anchor tag, t.span)
  | .flowSequenceStart =>
    goTo .flowSequenceFirstEntry
    return (.sequenceStart anchor tag, t.span)
  | .flowMappingStart =>
    goTo .flowMappingFirstKey
    return (.mappingStart anchor tag, t.span)
  | .blockSequenceStart =>
    if block then
      goTo .blockSequenceFirstEntry
      return (.sequenceStart anchor tag, t.span)
  | .blockMappingStart =>
    if block then
      goTo .blockMappingFirstKey
      return (.mappingStart anchor tag, t.span)
  | _ => pure ()
  if tag.isSome || anchor > 0 then
    popState
    return (Event.emptyScalar anchor tag, t.span)
  fail t.span.start .nodeMissing

def directives : Read Unit := do
  let rec go (versionSeen : Bool) : Nat → Read Unit
    | 0 => pure ()
    | n + 1 => do
      let t ← peekToken
      match t.kind with
      | .versionDirective _ _ =>
        if versionSeen then fail t.span.start .duplicateVersion
        modify fun r => { r with tags := [] }
        skip
        go true n
      | .tagDirective h p =>
        modify fun r => { r with tags := [(h, p)] }
        skip
        go versionSeen n
      | _ => pure ()
  go false ((← get).lexer.remaining + 2)

def explicitDocumentStart : Read (Event × Span) := do
  directives
  let t ← peekToken
  match t.kind with
  | .documentStart =>
    pushState .documentEnd
    goTo .documentContent
    skip
    return (.documentStart true, t.span)
  | _ => fail t.span.start .documentStartMissing

def isDocumentEnd (t : Token) : Bool :=
  match t.kind with
  | .documentEnd => true
  | _ => false

def documentStart (implicit : Bool) : Read (Event × Span) := do
  let rec dropEnds : Nat → Read Unit
    | 0 => pure ()
    | n + 1 => do
      if isDocumentEnd (← peekToken) then
        skip
        dropEnds n
  dropEnds ((← get).lexer.remaining + 2)
  let t ← peekToken
  match t.kind with
  | .streamEnd =>
    goTo .finished
    skip
    return (.streamEnd, t.span)
  | .versionDirective _ _ | .tagDirective _ _ | .documentStart => explicitDocumentStart
  | _ =>
    if implicit then
      directives
      pushState .documentEnd
      goTo .blockNode
      return (.documentStart false, t.span)
    explicitDocumentStart

def documentContent : Read (Event × Span) := do
  let t ← peekToken
  match t.kind with
  | .versionDirective _ _ | .tagDirective _ _ | .documentStart | .documentEnd | .streamEnd =>
    popState
    return (Event.emptyScalar 0 none, t.span)
  | _ => node true false

def documentEnd : Read (Event × Span) := do
  let t ← peekToken
  let explicit := isDocumentEnd t
  let span := if explicit then t.span else Span.empty t.span.start
  if explicit then skip
  modify fun r => { r with tags := [] }
  if explicit then
    goTo .implicitDocumentStart
  else
    let u ← peekToken
    match u.kind with
    | .versionDirective _ _ | .tagDirective _ _ => fail u.span.start .directiveWithoutEnd
    | _ => pure ()
    goTo .documentStart
  return (.documentEnd, span)

def blockMappingKey (first : Bool) : Read (Event × Span) := do
  if first then
    let _ ← peekToken
    skip
  let t ← peekToken
  match t.kind with
  | .key =>
    skip
    let u ← peekToken
    match u.kind with
    | .key | .value | .blockEnd =>
      goTo .blockMappingValue
      return (Event.emptyScalar 0 none, u.span)
    | _ =>
      pushState .blockMappingValue
      node true true
  | .value =>
    goTo .blockMappingValue
    return (Event.emptyScalar 0 none, t.span)
  | .blockEnd =>
    popState
    skip
    return (.mappingEnd, t.span)
  | _ => fail t.span.start .blockMappingKey

def blockMappingValue : Read (Event × Span) := do
  let t ← peekToken
  match t.kind with
  | .value =>
    skip
    let u ← peekToken
    match u.kind with
    | .key | .value | .blockEnd =>
      goTo .blockMappingKey
      return (Event.emptyScalar 0 none, t.span)
    | _ =>
      pushState .blockMappingKey
      node true true
  | _ =>
    goTo .blockMappingKey
    return (Event.emptyScalar 0 none, t.span)

def blockSequenceEntry (first : Bool) : Read (Event × Span) := do
  if first then
    let _ ← peekToken
    skip
  let t ← peekToken
  match t.kind with
  | .blockEnd =>
    popState
    skip
    return (.sequenceEnd, t.span)
  | .blockEntry =>
    skip
    let u ← peekToken
    match u.kind with
    | .blockEntry | .blockEnd =>
      goTo .blockSequenceEntry
      return (Event.emptyScalar 0 none, t.span)
    | _ =>
      pushState .blockSequenceEntry
      node true false
  | _ => fail t.span.start .blockSequenceEntry

def indentlessSequenceEntry : Read (Event × Span) := do
  let t ← peekToken
  match t.kind with
  | .blockEntry =>
    skip
    let u ← peekToken
    match u.kind with
    | .blockEntry | .key | .value | .blockEnd =>
      goTo .indentlessSequenceEntry
      return (Event.emptyScalar 0 none, t.span)
    | _ =>
      pushState .indentlessSequenceEntry
      node true false
  | _ =>
    popState
    return (.sequenceEnd, t.span)

def flowSequenceEntry (first : Bool) : Read (Event × Span) := do
  if first then
    let _ ← peekToken
    skip
  let t ← peekToken
  match t.kind with
  | .flowSequenceEnd =>
    popState
    skip
    return (.sequenceEnd, t.span)
  | .flowEntry =>
    if !first then skip
  | _ =>
    if !first then fail t.span.start .flowSequenceEntry
  let t ← peekToken
  match t.kind with
  | .flowSequenceEnd =>
    popState
    skip
    return (.sequenceEnd, t.span)
  | .key =>
    goTo .flowSequenceEntryMappingKey
    skip
    return (.mappingStart 0 none, t.span)
  | _ =>
    pushState .flowSequenceEntry
    node false false

def flowSequenceEntryMappingKey : Read (Event × Span) := do
  let t ← peekToken
  match t.kind with
  | .value | .flowEntry | .flowSequenceEnd =>
    skip
    goTo .flowSequenceEntryMappingValue
    return (Event.emptyScalar 0 none, t.span)
  | _ =>
    pushState .flowSequenceEntryMappingValue
    node false false

def flowSequenceEntryMappingValue : Read (Event × Span) := do
  let t ← peekToken
  match t.kind with
  | .value =>
    skip
    goTo .flowSequenceEntryMappingValue
    let u ← peekToken
    match u.kind with
    | .flowEntry | .flowSequenceEnd =>
      goTo .flowSequenceEntryMappingEnd
      return (Event.emptyScalar 0 none, u.span)
    | _ =>
      pushState .flowSequenceEntryMappingEnd
      node false false
  | _ =>
    goTo .flowSequenceEntryMappingEnd
    return (Event.emptyScalar 0 none, t.span)

def flowSequenceEntryMappingEnd : Read (Event × Span) := do
  goTo .flowSequenceEntry
  return (.mappingEnd, Span.empty (← get).lexer.mark)

def flowMappingKey (first : Bool) : Read (Event × Span) := do
  if first then
    let _ ← peekToken
    skip
  let t ← peekToken
  let closing : Span ← match t.kind with
    | .flowMappingEnd => pure t.span
    | _ => do
      if !first then
        let u ← peekToken
        match u.kind with
        | .flowEntry => skip
        | _ => fail u.span.start .flowMappingEntry
      let u ← peekToken
      match u.kind with
      | .key =>
        skip
        let v ← peekToken
        match v.kind with
        | .value | .flowEntry | .flowMappingEnd =>
          goTo .flowMappingValue
          return (Event.emptyScalar 0 none, v.span)
        | _ =>
          pushState .flowMappingValue
          return (← node false false)
      | .value =>
        goTo .flowMappingValue
        return (Event.emptyScalar 0 none, u.span)
      | .flowMappingEnd => pure t.span
      | _ =>
        pushState .flowMappingEmptyValue
        return (← node false false)
  popState
  skip
  return (.mappingEnd, closing)

def flowMappingValue (empty : Bool) : Read (Event × Span) := do
  let t ← peekToken
  if empty then
    goTo .flowMappingKey
    return (Event.emptyScalar 0 none, t.span)
  match t.kind with
  | .value =>
    skip
    let u ← peekToken
    match u.kind with
    | .flowEntry | .flowMappingEnd => pure ()
    | _ =>
      pushState .flowMappingKey
      return (← node false false)
  | _ => pure ()
  goTo .flowMappingKey
  return (Event.emptyScalar 0 none, t.span)

def streamStart : Read (Event × Span) := do
  let t ← peekToken
  match t.kind with
  | .streamStart =>
    goTo .implicitDocumentStart
    skip
    return (.streamStart, t.span)
  | _ => fail t.span.start .streamStartMissing

def step : Read (Event × Span) := do
  match (← get).state with
  | .streamStart => streamStart
  | .implicitDocumentStart => documentStart true
  | .documentStart => documentStart false
  | .documentContent => documentContent
  | .documentEnd => documentEnd
  | .blockNode => node true false
  | .blockMappingFirstKey => blockMappingKey true
  | .blockMappingKey => blockMappingKey false
  | .blockMappingValue => blockMappingValue
  | .blockSequenceFirstEntry => blockSequenceEntry true
  | .blockSequenceEntry => blockSequenceEntry false
  | .flowSequenceFirstEntry => flowSequenceEntry true
  | .flowSequenceEntry => flowSequenceEntry false
  | .flowMappingFirstKey => flowMappingKey true
  | .flowMappingKey => flowMappingKey false
  | .flowMappingValue => flowMappingValue false
  | .indentlessSequenceEntry => indentlessSequenceEntry
  | .flowSequenceEntryMappingKey => flowSequenceEntryMappingKey
  | .flowSequenceEntryMappingValue => flowSequenceEntryMappingValue
  | .flowSequenceEntryMappingEnd => flowSequenceEntryMappingEnd
  | .flowMappingEmptyValue => flowMappingValue true
  | .finished => return (.streamEnd, Span.empty (← get).lexer.mark)

end Read

def Reader.collect (acc : Array (Event × Span)) : Nat → Read (Array (Event × Span))
  | 0 => pure acc
  | n + 1 => do
    let e ← Read.step
    match e.1 with
    | .streamEnd => return acc.push e
    | _ => Reader.collect (acc.push e) n

def Event.read (text : String) : Except SyntaxError (Array (Event × Span)) :=
  let r : Reader := { lexer := Lexer.ofString text }
  (Reader.collect #[] (16 * (text.length + 4))).run' r

end AnnotatedYaml.Syntax
