import AnnotatedYaml.Cli.Spelling

/-! The command line of the YAML round-trip tool: global switches, then one command with its own
options and file paths. -/

namespace AnnotatedYaml.Cli

/-- How much the tool logs while it works. -/
inductive LogLevel
  | none
  | trace
  | debug
  | info
  | warn
  | error
  deriving BEq, Repr, Inhabited

namespace LogLevel

def names : List (String × LogLevel) :=
  [("none", .none), ("trace", .trace), ("debug", .debug), ("info", .info), ("warn", .warn),
    ("error", .error)]

def ofString? (s : String) : Except String LogLevel :=
  match names.lookup s with
  | some l => .ok l
  | Option.none => .error ("expected 'none', 'trace', 'debug', 'info', 'warn', or 'error', got '" ++ s ++ "'")

end LogLevel

/-- The largest count a word may give: counts are machine words of 64 bits. -/
def countLimit : Nat := 18446744073709551616

/-- Reads a count: decimal digits, optionally after one `+`, below `countLimit`. The refusal
names the first fault met from the left. -/
def readCount (s : String) : Except String Nat :=
  match s.toList with
  | [] => .error "cannot parse integer from empty string"
  | ['+'] => .error "invalid digit found in string"
  | '+' :: ds => go ds 0
  | ds => go ds 0
where
  go : List Char → Nat → Except String Nat
    | [], n => .ok n
    | c :: rest, n =>
      if c.isDigit then
        let n := 10 * n + (c.toNat - '0'.toNat)
        if n < countLimit then go rest n else .error "number too large to fit in target type"
      else .error "invalid digit found in string"

inductive Command
  /-- Write each file back, without its comments when `stripComments` is set. -/
  | render (stripComments : Bool) (indent : Nat) (paths : List String)
  /-- Show how each file would change when written back. -/
  | check (indent : Nat) (paths : List String)
  /-- List the comments of each file with the nodes that own them. -/
  | comments (paths : List String)
  /-- Name the tool and its version. -/
  | version
  deriving Repr, Inhabited

structure Invocation where
  verbose : Bool
  logLevel : LogLevel
  command : Command
  deriving Repr, Inhabited

/-- What a command line asks for: a run, the help of the tool or of one command, or the
tool's version. -/
inductive Request
  | run (invocation : Invocation)
  | help (command : Option String)
  | version
  deriving Repr, Inhabited

def shortSwitches : List Char := ['v', 'h', 'V']

/-- The tool's own level: two global options and four commands. -/
def topLevel : Level :=
  ⟨["verbose", "log-level"], ['v'], ["render", "check", "comments", "version"],
    [("render", ["strip-comments", "indent"]), ("check", ["indent"])]⟩

def commandLevel : String → Level
  | "render" => ⟨["strip-comments", "indent"], [], [], []⟩
  | "check" => ⟨["indent"], [], [], []⟩
  | _ => ⟨[], [], [], []⟩

def indentMetavar : String := "N"

def logLevelMetavar : String := "<none|trace|debug|info|warn|error>"

def defaultIndent : Nat := 2

/-- An option at `key` with no value after it. The option that follows it is named when it is
there, not taken yet. -/
def lacksValue (l : Line) (key : Nat) (metavar : String) (next : Option Item) : Refusal :=
  let option := ((l.items[key]?).map Item.label).getD ""
  let written := next.bind fun
    | .short _ _ t | .long _ _ t => some t
    | _ => none
  .needsValue option metavar written

/-- A value as a refusal shows it: as written, or, when empty, as two quotes after its option. -/
def shownValue (l : Line) (key : Nat) (v : String) : String :=
  if !v.isEmpty then v else
  match l.items[key]? with
  | some (.long n true _) => "--" ++ n ++ "=\"\""
  | some x => x.label ++ " \"\""
  | none => "\"\""

def readValued {α : Type} (l : Line) (s : Scope) (name metavar : String) (dflt : α)
    (read : String → Except String α) : Except Refusal (α × Line) :=
  match l.takeValued s name with
  | (.absent, l) => .ok (dflt, l)
  | (.bare key next, _) => .error (lacksValue l key metavar next)
  | (.value key v, l') =>
    match read v with
    | .ok a => .ok (a, l')
    | .error reason => .error (.unreadable (shownValue l key v) reason)

def readIndent (l : Line) (s : Scope) : Except Refusal (Nat × Line) :=
  readValued l s "indent" indentMetavar defaultIndent readCount

/-- Reads one command's options and paths from the items after its name. -/
def readCommand (name : String) (l : Line) (s : Scope) : Except Refusal (Command × Line) := do
  match name with
  | "render" =>
    let (strip, l) := l.takeSwitch s (Item.isSwitch none "strip-comments")
    let (indent, l) ← readIndent l s
    let (paths, l) := l.takePositionals s
    return (.render strip indent paths, l)
  | "check" =>
    let (indent, l) ← readIndent l s
    let (paths, l) := l.takePositionals s
    return (.check indent paths, l)
  | "comments" =>
    let (paths, l) := l.takePositionals s
    return (.comments paths, l)
  | _ => return (.version, l)

/-- The refusal of an item at `i` that nothing took: a suggestion if one applies, else a
repetition when an item of the same name stands before it. -/
def leftOver (lv : Level) (l : Line) (i : Nat) (x : Item) : Refusal :=
  match lv.suggest x with
  | some r => r
  | none => if (l.earlierSame? i).isSome then .repeated x.label else .unexpected x.label

/-- Reads a command and requires that it leaves no item of its scope. -/
def readWholeCommand (name : String) (l : Line) (s : Scope) : Except Refusal Command := do
  let (c, l) ← readCommand name l s
  match l.first? s with
  | some (i, x) => throw (leftOver (commandLevel name) l i x)
  | none => return c

def readGlobal (l : Line) : Except Refusal (Bool × LogLevel × Line) := do
  let s := l.whole
  let (verbose, l) := l.takeSwitch s (Item.isSwitch (some 'v') "verbose")
  let (level, l) ← readValued l s "log-level" logLevelMetavar LogLevel.none LogLevel.ofString?
  return (verbose, level, l)

/-- The refusal when no command stands first: a suggestion if one applies. -/
def missingCommand (l : Line) : Refusal :=
  match l.first? l.whole with
  | some (_, x) => (topLevel.suggest x).getD (.expected "COMMAND ..." (some x.label))
  | none => .expected "COMMAND ..." none

def asksHelp (l : Line) (s : Scope) : Bool := l.has s (Item.isSwitch (some 'h') "help")

def asksVersion (l : Line) (s : Scope) : Bool := l.has s (Item.isSwitch (some 'V') "version")

def Request.parse (args : List String) : Except Refusal Request :=
  let l := Line.ofArgs shortSwitches args
  let atTop (r : Refusal) : Except Refusal Request :=
    if asksVersion l l.whole then .ok .version
    else if asksHelp l l.whole then .ok (.help none)
    else .error r
  match readGlobal l with
  | .error r => atTop r
  | .ok (verbose, level, l') =>
    match l'.first? l'.whole with
    | some (i, .word name) =>
      if topLevel.commands.contains name then
        let s : Scope := ⟨i + 1, l'.size⟩
        match readWholeCommand name (l'.take i) s with
        | .ok c => .ok (.run ⟨verbose, level, c⟩)
        | .error r => if asksHelp l' s then .ok (.help (some name)) else .error r
      else atTop (missingCommand l')
    | _ => atTop (missingCommand l')

end AnnotatedYaml.Cli
