import AnnotatedYaml.Cli.Args
import AnnotatedYaml.Text.LineDiff
import AnnotatedYaml.Stream

/-! Running the tool: each command reads its files and writes to the two output streams, and the
outcome is its exit status with the text of both streams. -/

namespace AnnotatedYaml.Cli

/-- Where a run finds its files: the bytes at a path, or nothing when there is no file. -/
abbrev Files := String → Option ByteArray

structure Outcome where
  status : Nat
  stdout : String
  stderr : String
  deriving Repr, Inhabited

inductive Failure
  | noInputFiles
  | library (e : Error)
  deriving Repr, Inhabited

def Failure.message : Failure → String
  | .noInputFiles => "no input files"
  | .library e => e.message

structure Streams where
  out : String
  err : String
  deriving Inhabited

/-- A run in progress: it writes to the streams and may stop with a failure, keeping what it
wrote. -/
abbrev Session := ExceptT Failure (StateM Streams)

namespace Session

def say (s : String) : Session Unit := modify fun st => { st with out := st.out ++ s }

def note (s : String) : Session Unit := modify fun st => { st with err := st.err ++ s }

def ofExcept {α : Type} : Except Error α → Session α
  | .ok a => pure a
  | .error e => throw (.library e)

end Session

/-- The text without a byte order mark in front. -/
def dropByteOrderMark (s : String) : String :=
  match s.toList with
  | '\uFEFF' :: rest => String.ofList rest
  | _ => s

/-- The text of a file: its bytes must be UTF-8, and a byte order mark in front is dropped. -/
def Files.text (files : Files) (path : String) : Except Error String :=
  match files path >>= String.fromUTF8? with
  | some s => .ok (dropByteOrderMark s)
  | none => .error (.unreadable path)

/-- Reads and annotates one file, first naming it on the error stream when asked to. -/
def load (files : Files) (verbose : Bool) (path : String) : Session AnnotatedTree := do
  if verbose then Session.note (path ++ "\n")
  let text ← Session.ofExcept (files.text path)
  Session.ofExcept (AnnotatedTree.parse text)

/-- The indent width, which must be valid before any file is read. -/
def widthOf (paths : List String) (indent : Nat) : Session IndentWidth := do
  if paths.isEmpty then throw .noInputFiles
  Session.ofExcept (IndentWidth.ofNat? indent)

/-- `n line` or `n lines`. -/
def lineCount (n : Nat) : String := toString n ++ (if n == 1 then " line" else " lines")

/-- How much a file changes: `changed n lines` when as many lines are added as removed. -/
def changeSummary (added removed : Nat) : String :=
  if added == removed then "changed " ++ lineCount added
  else "added " ++ lineCount added ++ ", removed " ++ lineCount removed

/-- The report on a file that changes when written back: a summary line, then the unified diff
from the file to its rendering with three lines of context. -/
def changeReport (path original rendered : String) : String :=
  let a := LineDiff.lines original
  let b := LineDiff.lines rendered
  let blocks := LineDiff.changes a b
  let kept := LineDiff.kept blocks
  path ++ ": " ++ changeSummary (b.size - kept) (a.size - kept) ++ "\n" ++
    LineDiff.unified 3 path (path ++ " (round trip)") a b blocks

/-- `k of n files would change on a round trip`. -/
def checkSummary (changed total : Nat) : String :=
  toString changed ++ " of " ++ toString total ++ " file" ++ (if total == 1 then "" else "s") ++
    " would change on a round trip\n"

/-- One line per comment of an annotated file: the path, where its node starts, the node's kind,
the comment's place and its text. Nodes come in walk order; a node's leading comments come
first, then its line-end comment, then its trailing ones. -/
def listing (path : String) (a : AnnotatedTree) : List String :=
  a.tree.walk.flatMap fun id =>
    let slot := a.comments.get id
    match a.tree.get? id with
    | some node =>
      if slot.isEmpty then [] else
      let head := path ++ ":" ++ node.start.display ++ " " ++ node.kind.name
      slot.leading.map (head ++ " leading " ++ ·) ++ slot.lineEnd.toList.map (head ++ " line-end " ++ ·) ++
        slot.trailing.map (head ++ " trailing " ++ ·)
    | none => []

def renderFiles (files : Files) (verbose strip : Bool) (indent : Nat) (paths : List String) :
    Session Unit := do
  let width ← widthOf paths indent
  for path in paths do
    let a ← load files verbose path
    let a := if strip then AnnotatedTree.bare a.tree else a
    Session.say (← Session.ofExcept (a.render width))

/-- Reports every file that changes when written back; answers whether one did. -/
def checkFiles (files : Files) (verbose : Bool) (indent : Nat) (paths : List String) :
    Session Bool := do
  let width ← widthOf paths indent
  let mut changed := 0
  for path in paths do
    let a ← load files verbose path
    let original ← Session.ofExcept (files.text path)
    let rendered ← Session.ofExcept (a.render width)
    if rendered != original then
      changed := changed + 1
      Session.say (changeReport path original rendered)
  if changed > 0 then Session.note (checkSummary changed paths.length)
  return changed > 0

def listFiles (files : Files) (verbose : Bool) (paths : List String) : Session Unit := do
  if paths.isEmpty then throw .noInputFiles
  for path in paths do
    let a ← load files verbose path
    Session.say (String.join ((listing path a).map (· ++ "\n")))

def versionLine : String := "yaml-comments 0.1.0"

/-- The session of one command; it answers whether `check` found a change. -/
def Invocation.session (files : Files) (inv : Invocation) : Session Bool :=
  match inv.command with
  | .render strip indent paths => do renderFiles files inv.verbose strip indent paths; return false
  | .check indent paths => checkFiles files inv.verbose indent paths
  | .comments paths => do listFiles files inv.verbose paths; return false
  | .version => do Session.say (versionLine ++ "\n"); return false

def Invocation.run (files : Files) (inv : Invocation) : Outcome :=
  match (inv.session files).run.run ⟨"", ""⟩ with
  | (.ok changed, st) => ⟨if changed then 1 else 0, st.out, st.err⟩
  | (.error f, st) => ⟨2, st.out, st.err ++ "Error: " ++ f.message ++ "\n"⟩

/-- The help of the tool, or of one of its commands. -/
def helpText : Option String → String
  | some "render" =>
    "Print each file as re-emitted YAML\n\nUsage: yaml-comments render [--strip-comments] [--indent=N] [PATH]...\n\n" ++
    "Available positional items:\n    PATH\n\nAvailable options:\n        --strip-comments\n" ++
    "        --indent=N\n                 [default: 2]\n    -h, --help   Prints help information\n"
  | some "check" =>
    "Show a diff for each file that would change on a round trip\n\nUsage: yaml-comments check [--indent=N] [PATH]...\n\n" ++
    "Available positional items:\n    PATH\n\nAvailable options:\n        --indent=N  [default: 2]\n" ++
    "    -h, --help      Prints help information\n"
  | some "comments" =>
    "List every comment with the node it is attached to\n\nUsage: yaml-comments comments [PATH]...\n\n" ++
    "Available positional items:\n    PATH\n\nAvailable options:\n    -h, --help  Prints help information\n"
  | some _ =>
    "Print version information\n\nUsage: yaml-comments version\n\nAvailable options:\n" ++
    "    -h, --help  Prints help information\n"
  | none =>
    "Round-trip YAML files with their comments in place\n\nUsage: yaml-comments COMMAND ...\n\n" ++
    "Available options:\n    -v, --verbose  Print each file name to stderr as it is processed\n" ++
    "        --log-level=<none|trace|debug|info|warn|error>  The level of logging. In order, from the " ++
    "most verbose to the least verbose: trace, debug, info, warn, error. Overrides YAML_COMMENTS_LOG.\n" ++
    "                   [default: none]\n    -h, --help     Prints help information\n" ++
    "    -V, --version  Prints version information\n\nAvailable commands:\n" ++
    "    render    Print each file as re-emitted YAML\n" ++
    "    check     Show a diff for each file that would change on a round trip\n" ++
    "    comments  List every comment with the node it is attached to\n" ++
    "    version   Print version information\n"

/-- What `--version` prints: the version, then a blank line. -/
def versionNote : String := "Version: 0.1.0\n\n"

/-- Runs the tool on a command line. A line that does not read is refused with status 1; an
empty one shows the help. -/
def run (files : Files) (args : List String) : Outcome :=
  match Request.parse args with
  | .ok (.run inv) => inv.run files
  | .ok .version => ⟨0, versionNote, ""⟩
  | .ok (.help c) => ⟨0, helpText c, ""⟩
  | .error e =>
    if args.isEmpty then ⟨0, helpText none, ""⟩
    else ⟨1, "", "Error: " ++ e.text ++ "\n"⟩

end AnnotatedYaml.Cli
