import AnnotatedYaml.Tree.Basic
import AnnotatedYaml.Text.Source
import AnnotatedYaml.Syntax.Event.Reader

/-! From YAML text to a positioned tree. -/

namespace AnnotatedYaml

open Syntax Text

/-- The place a lexer mark stands for: its line counted from one becomes a line counted from
zero. -/
def Syntax.Mark.toPosition (m : Mark) : Position := ⟨m.line - 1, m.col⟩

/-- Characters of anchor and alias names as the text is read back: anything but white space
and flow indicators. -/
def isAnchorNameChar (c : Char) : Bool := !isWhite c && !isFlowIndicator c

/-- The `&name` words of the text in order, outside scalars and aliases (`skip`, byte
ranges), comments and directive lines. -/
def anchorNames (source : SourceText) (skip : Array (Nat × Nat)) : Array String := Id.run do
  let mut names : Array String := #[]
  let mut next := 0
  for lineIdx in [0:source.lineCount] do
    let line := source.line lineIdx
    let lineStart := source.starts.getD lineIdx 0
    if (dropWhite line).head? == some '%' then continue
    let mut prev : Option Char := none
    let mut byte := lineStart
    let mut rest := line
    for c in line do
      rest := rest.drop 1
      while next < skip.size && (skip.getD next (0, 0)).2 ≤ byte do
        next := next + 1
      let skipped := next < skip.size && (skip.getD next (0, 0)).1 ≤ byte
      if !skipped then
        if c == '#' && (prev.map isWhite).getD true then break
        let startsToken := (prev.map fun p => isWhite p || p == '[' || p == '{' || p == ',').getD true
        if c == '&' && startsToken then
          let name := rest.takeWhile isAnchorNameChar
          if !name.isEmpty then names := names.push (String.ofList name)
      prev := some c
      byte := byte + c.utf8Size
  return names

/-- Where `open` stands at `p`, or after node properties (`&a`, `!t`) on the same line. -/
def delimiterAt (source : SourceText) (p : Position) (opening : Char) : Option Position :=
  go p.column (source.contentLength p.line + 1)
where
  go (column : Nat) : Nat → Option Position
    | 0 => none
    | fuel + 1 =>
      if column ≥ source.contentLength p.line then none
      else match source.charAt ⟨p.line, column⟩ with
        | none => none
        | some c =>
          if c == opening then some ⟨p.line, column⟩
          else if c == '&' || c == '!' then
            let word := source.takeWhileFrom ⟨p.line, column + 1⟩ (fun d => !isWhite d)
            go (column + word.length + 1) fuel
          else if !isWhite c then none
          else go (column + 1) fuel

/-- What the bracket scan carries from one line to the next: the nesting depth, the open
quote, whether a comment runs, and the character before. -/
structure BracketScan where
  depth : Nat
  quote : Option Char
  inComment : Bool
  prev : Char

/-- The bracket scan from character `i`, at position `at`: the position after the matching
bracket, or nothing when the text ends first. -/
def scanFrom (chars : Array Char) : Nat → Position → BracketScan → Nat → Option Position
  | _, _, _, 0 => none
  | i, at0, st, fuel + 1 =>
    match chars[i]? with
    | none => none
    | some c =>
      let step (p : Position) (d : Char) : Position := if d == '\n' then ⟨p.line + 1, 0⟩ else p.shift 1
      let next := step at0 c
      if st.inComment then scanFrom chars (i + 1) next { st with inComment := c != '\n', prev := c } fuel
      else match st.quote with
        | some q =>
          if c == '\\' && q == '"' then
            match chars[i + 1]? with
            | some d => scanFrom chars (i + 2) (step next d) { st with prev := c } fuel
            | none => none
          else if c == q then
            match chars[i + 1]? with
            | some d =>
              if q == '\'' && d == '\'' then scanFrom chars (i + 2) (step next d) st fuel
              else scanFrom chars (i + 1) next { st with quote := none, prev := c } fuel
            | none => none
          else scanFrom chars (i + 1) next { st with prev := c } fuel
        | none =>
          let prev := st.prev
          if (c == '\'' || c == '"') &&
              (isWhite prev || prev == '[' || prev == '{' || prev == ',' || prev == ':') then
            scanFrom chars (i + 1) next { st with quote := some c, prev := c } fuel
          else if c == '#' && isWhite prev then
            scanFrom chars (i + 1) next { st with inComment := true, prev := c } fuel
          else if c == '[' || c == '{' then
            scanFrom chars (i + 1) next { st with depth := st.depth + 1, prev := c } fuel
          else if c == ']' || c == '}' then
            if st.depth - 1 == 0 then some next
            else scanFrom chars (i + 1) next { st with depth := st.depth - 1, prev := c } fuel
          else scanFrom chars (i + 1) next { st with prev := c } fuel

/-- Bracket matching from an opening bracket at `p`, skipping quoted text and comments; the
position after the matching bracket. -/
def matchingClose (source : SourceText) (p : Position) : Option Position :=
  if p.line ≥ source.lineCount then none
  else
    let i := source.index p
    scanFrom source.chars i (source.positionOfIndex i) ⟨0, none, false, ' '⟩ (source.chars.size + 1)

/-- A quoted scalar spans its quotes: the opening quote is looked for at most five bytes
before the span's start, the closing one after it. -/
def quotedSpan (source : SourceText) (span : Span) (quote : Char) : Position × Position :=
  let bytes := source.bytes
  let q := quote.toUInt8
  let lo := source.byteOffset span.start.toPosition
  let opening := (List.range (min lo 5 + 1)).findSome? fun k =>
    if bytes[lo - k]? == some q then some (lo - k) else none
  match opening with
  | none => (span.start.toPosition, span.stop.toPosition)
  | some o =>
    let rec scan : Nat → Nat → Option Nat
      | 0, _ => none
      | fuel + 1, i =>
        if i ≥ bytes.size then none
        else if quote == '"' && bytes[i]? == some 92 then scan fuel (i + 2)
        else if bytes[i]? == some q then
          if quote == '\'' && bytes[i + 1]? == some q then scan fuel (i + 2)
          else some i
        else scan fuel (i + 1)
    match scan (bytes.size + 1) (o + 1) with
    | some i => (source.positionAt o, source.positionAt (i + 1))
    | none => (source.positionAt o, span.stop.toPosition)

/-- Whether what follows a block indicator on its line can be a block scalar header. -/
def isBlockHeader (after : List Char) : Bool :=
  let header := Text.trim (String.ofList ((after.takeWhile (· != '\n'))))
  match header.toList with
  | [] => true
  | c :: _ => c == '+' || c == '-' || c == '#' || isDigit c

/-- A block scalar starts at its indicator: at the span's start, or the last indicator before
it that is followed by a header. -/
def blockStart (source : SourceText) (span : Span) (indicator : Char) : Position :=
  let start := span.start.toPosition
  if source.charAt start == some indicator then start
  else
    (source.lastBefore start indicator isBlockHeader).getD start

structure Builder where
  source : SourceText
  events : Array (Event × Span)
  pos : Nat := 0
  tree : Tree := Tree.empty
  anchors : Array String
  inFlow : Nat := 0
  lastEnd : Position := Position.zero
  docFloor : Nat := 0

abbrev Build := StateT Builder (Except Error)

namespace Build

def peek : Build (Option (Event × Span)) := return (← get).events[(← get).pos]?

def advance : Build (Option (Event × Span)) := do
  let b ← get
  set { b with pos := b.pos + 1 }
  return b.events[b.pos]?

def bump : Build Unit := modify fun b => { b with pos := b.pos + 1 }

def push (kind : NodeKind) (start stop : Position) : Build Nat := do
  let stop := max stop start
  let b ← get
  match b.tree.push { kind, start, stop } with
  | .ok (id, tree) =>
    set { b with tree, lastEnd := stop }
    return id
  | .error e => throw e

/-- Node `id` of the tree built so far: an id past its end is a panic. -/
def node (id : Nat) : Build Node := do
  let b ← get
  match b.tree.get? id with
  | some n => return n
  | none => throw (.panic (.indexOutOfBounds id b.tree.size))

/-- Leaves a collection: leaving a flow collection lowers the depth of flow collections by
one, and below zero is a panic. -/
def leaveFlow (flow : Bool) : Build Unit := do
  let b ← get
  if flow then
    if b.inFlow = 0 then throw (.panic .subtractOverflow)
    else set { b with inFlow := b.inFlow - 1 }

/-- The text is sliced from byte `lo` to byte `hi`: out of order or off a character boundary
is a panic. -/
def checkSlice (source : SourceText) (lo hi : Nat) : Build Unit :=
  if lo ≤ hi && source.isBoundary lo && source.isBoundary hi then pure ()
  else throw (.panic (.sliceOutOfBounds lo hi))

def anchorName (id : Nat) : Build (Option String) := do
  if id == 0 then return none
  match (← get).anchors[id - 1]? with
  | some n => return some n
  | none => throw (.missingAnchor id)

/-- Omitted plain scalars come through as `~`; only a `~` in the text is a real tilde. -/
def isImplicitNull (source : SourceText) (span : Span) (value : String) (style : ScalarStyle) :
    Bool :=
  style == .plain && (value == "~" || value.isEmpty) &&
    (span.start.index == span.stop.index ||
      !(source.slice span.start.toPosition span.stop.toPosition).contains '~')

def scalar (value : String) (style : ScalarStyle) (anchorId : Nat) (tag : Option Tag)
    (span : Span) : Build Nat := do
  let anchor ← anchorName anchorId
  let tag := tag.map Tag.text
  let b ← get
  if isImplicitNull b.source span value style then
    return ← push (.scalar { value := "", style, tag, anchor }) b.lastEnd b.lastEnd
  let (start, stop) := match style with
    | .singleQuoted => quotedSpan b.source span '\''
    | .doubleQuoted => quotedSpan b.source span '"'
    | .literal => (blockStart b.source span '|', span.stop.toPosition)
    | .folded => (blockStart b.source span '>', span.stop.toPosition)
    | .plain => (span.start.toPosition, span.stop.toPosition)
  push (.scalar { value, style, tag, anchor }) start stop

def aliasRef (anchorId : Nat) (span : Span) : Build Nat := do
  let start := span.start.toPosition
  let source := (← get).source
  let name := if source.charAt start == some '*' then source.takeWhileFrom (start.shift 1) isAnchorNameChar
    else []
  if name.isEmpty then
    match ← anchorName anchorId with
    | some n => push (.alias n) start span.stop.toPosition
    | none => throw (.missingAnchor anchorId)
  else push (.alias (String.ofList name)) start (start.shift (1 + name.length))

def isCollectionEnd : Event → Bool
  | .mappingEnd | .sequenceEnd => true
  | _ => false

mutual

def buildNode : Nat → Build (Option Nat)
  | 0 => pure none
  | fuel + 1 => do
    match ← peek with
    | some (.scalar v style a tag, span) =>
      bump
      return some (← scalar v style a tag span)
    | some (.mappingStart a tag, span) =>
      bump
      return some (← collection fuel true a tag span)
    | some (.sequenceStart a tag, span) =>
      bump
      return some (← collection fuel false a tag span)
    | some (.alias a, span) =>
      bump
      return some (← aliasRef a span)
    | _ => return none

def children : Nat → Array Nat → Build (Array Nat)
  | 0, acc => pure acc
  | fuel + 1, acc => do
    match ← peek with
    | none => return acc
    | some (e, _) =>
      if isCollectionEnd e then return acc
      match ← buildNode fuel with
      | some c => children fuel (acc.push c)
      | none => do bump; children fuel acc

def collection (fuel : Nat) (isMapping : Bool) (anchorId : Nat) (tag : Option Tag)
    (span : Span) : Build Nat := do
  let (opening, closing) := if isMapping then ('{', '}') else ('[', ']')
  let b ← get
  let openedAt := delimiterAt b.source span.start.toPosition opening
  let flow := openedAt.isSome || b.inFlow > 0
  let start := openedAt.getD span.start.toPosition
  set { b with lastEnd := (openedAt.map (Position.shift · 1)).getD start,
               inFlow := if flow then b.inFlow + 1 else b.inFlow }
  let kids ← children fuel #[]
  let endSpan := (← advance).map (·.2)
  leaveFlow flow
  let b ← get
  let lastChildEnd ← kids.back?.mapM fun c => return (← node c).stop
  let firstStart ← kids[0]?.mapM fun c => return (← node c).start
  let start := (firstStart.map (min start)).getD start
  let stop := match openedAt, endSpan with
    | some o, some es =>
      let p := es.start.toPosition
      if b.source.charAt p == some closing then p.shift 1
      else (matchingClose b.source o).getD es.stop.toPosition
    | _, _ => lastChildEnd.getD start
  let stop := (lastChildEnd.map (max stop)).getD stop
  let c : Collection :=
    { children := kids.toList, style := if flow then .flow else .block,
      tag := tag.map Tag.text, anchor := ← anchorName anchorId }
  push (if isMapping then .mapping c else .sequence c) start stop

end

/-- `%TAG` lines between the previous document and this one's `---`. -/
def tagDirectives (source : SourceText) (lo hi : Nat) : List TagDirective :=
  let lines := (source.sliceBytes lo hi).splitOn '\n'
  lines.filterMap fun line =>
    let t := Text.trim (String.ofList line)
    if t.startsWith "%TAG" then
      match Text.words (String.ofList (t.toList.drop 4)) with
      | h :: p :: _ => some ⟨h, p⟩
      | _ => none
    else none

/-- The `%TAG` directives before a document's `---` marker, read from the text between the
end of the previous document and the marker. -/
def directivesBefore (source : SourceText) (floor : Nat) : Option Nat → Build (List TagDirective)
  | none => pure []
  | some m => do
    checkSlice source floor m
    return tagDirectives source floor m

/-- The root a document built, or an empty scalar where it holds no node. -/
def rootOr (built : Option Nat) : Build Nat :=
  match built with
  | some r => pure r
  | none => do
    let at0 := (← get).lastEnd
    push (.scalar { value := "" }) at0 at0

/-- Where a document ends, from its root's end, and whether it is left open: an explicit
`...` line closes it and extends it over the marker. -/
def documentStop (rootStop : Position) : Build (Position × Bool) := do
  match ← peek with
  | some (.documentEnd, span) => do
    bump
    let line := span.start.toPosition.line
    if isMarkerLine ((← get).source.line line) "...".toList then
      pure (max rootStop ⟨line, 3⟩, false)
    else pure (rootStop, true)
  | _ => pure (rootStop, true)

def document (fuel : Nat) : Build Nat := do
  let explicit := match ← advance with
    | some (.documentStart true, _) => true
    | _ => false
  let b ← get
  let floor := b.docFloor
  let marker := if explicit then b.source.findMarkerLine floor "---".toList else none
  let directives ← directivesBefore b.source floor marker
  let markerPos := marker.map b.source.positionAt
  set { b with lastEnd := (markerPos.map (Position.shift · 3)).getD (b.source.positionAt floor) }
  let root ← rootOr (← buildNode fuel)
  let rootNode ← node root
  let (stop, implicitEnd) ← documentStop rootNode.stop
  let start := min (markerPos.getD rootNode.start) rootNode.start
  let d : Document :=
    { root, implicitStart := !explicit, implicitEnd, tagDirectives := directives }
  let id ← push (.document d) start stop
  modify fun b => { b with docFloor := b.source.byteOffset stop }
  return id

def stream (fuel : Nat) : Build Tree := do
  let rec docs : Nat → Array Nat → Build (Array Nat)
    | 0, acc => pure acc
    | n + 1, acc => do
      match ← peek with
      | some (.documentStart _, _) => docs n (acc.push (← document fuel))
      | some (.streamEnd, _) | none => pure acc
      | some _ => do bump; docs n acc
  let ds ← docs ((← get).events.size + 1) #[]
  let _ ← push (.stream ds.toList) Position.zero (← get).source.endPos
  return (← get).tree

end Build

/-- Builds the tree of a text from its events. -/
def Tree.ofEvents (text : String) (events : Array (Event × Span)) : Except Error Tree :=
  let source := SourceText.ofString text
  let skip := events.filterMap fun (e, span) =>
    match e with
    | .scalar .. | .alias _ =>
      let a := source.byteOffset span.start.toPosition
      let b := source.byteOffset span.stop.toPosition
      if a < b then some (a, b) else none
    | _ => none
  let b : Builder := { source, events, anchors := anchorNames source skip }
  (Build.stream (2 * events.size + 2)).run' b

/-- Reads a text into a tree without comments. -/
def Tree.parse (text : String) : Except Error Tree :=
  match Event.read text with
  | .error e =>
    let source := SourceText.ofString text
    .error (.parse e.info (source.byteOffset e.mark.toPosition))
  | .ok events => Tree.ofEvents text events

end AnnotatedYaml
