/-! The items of a command line, and which of them are taken. -/

namespace AnnotatedYaml.Cli

inductive Item
  /-- The short option `-c`, `valued` when `=value` follows in the same argument. `text` is the
  argument it came from, empty for the later letters of a run of switches. -/
  | short (c : Char) (valued : Bool) (text : String)
  /-- The long option `--name`, `valued` when `=value` follows in the same argument. -/
  | long (name : String) (valued : Bool) (text : String)
  /-- The value attached to the option before it by `=`. -/
  | attached (value : String)
  /-- A command, a positional parameter or the value of an option. -/
  | word (text : String)
  /-- An argument after `--`: a positional parameter only. -/
  | path (text : String)
  deriving BEq, Repr, Inhabited

namespace Item

/-- The item as messages show it: an option by its name, anything else by its text. -/
def label : Item → String
  | .short c _ _ => "-" ++ c.toString
  | .long name _ _ => "--" ++ name
  | .attached v | .word v | .path v => v

def text : Item → String
  | .short _ _ t | .long _ _ t => t
  | .attached v | .word v | .path v => v

/-- Whether the item is the switch `-c` or `--name`, with or without a value attached. -/
def isSwitch (c : Option Char) (name : String) : Item → Bool
  | .short d _ _ => some d == c
  | .long n _ _ => n == name
  | _ => false

def isLong (name : String) : Item → Bool
  | .long n _ _ => n == name
  | _ => false

def isPositional : Item → Bool
  | .word _ | .path _ => true
  | _ => false

def sameName : Item → Item → Bool
  | .short c _ _, .short d _ _ => c == d
  | .long m _ _, .long n _ _ => m == n
  | _, _ => false

/-- The items of a dashed run of letters: one switch per letter when all of them are known
switches, else the whole argument as a word. -/
def switchesOf (switches : List Char) (arg : String) (letters : List Char) : List Item :=
  if letters.all switches.contains then
    letters.zipIdx.map fun (c, i) => .short c false (if i == 0 then arg else "")
  else [.word arg]

/-- The items of one argument that stands before any lone `--`. -/
def cut (switches : List Char) (arg : String) : List Item :=
  match arg.toList with
  | '-' :: '-' :: body =>
    let name := String.ofList (body.takeWhile (· != '='))
    match body.dropWhile (· != '=') with
    | _ :: value => [.long name true arg, .attached (String.ofList value)]
    | [] => [.long name false arg]
  | '-' :: c :: rest =>
    match rest with
    | [] => [.short c false arg]
    | '=' :: value => [.short c true arg, .attached (String.ofList value)]
    | _ =>
      if rest.contains '=' then [.short c true arg, .attached (String.ofList rest)]
      else switchesOf switches arg (c :: rest)
  | _ => [.word arg]

end Item

structure Line where
  items : Array Item
  taken : Array Bool
  deriving Inhabited

structure Scope where
  start : Nat
  stop : Nat

inductive Found
  /-- The option is not given. -/
  | absent
  /-- The option stands at `key` and its value `v` right after it. -/
  | value (key : Nat) (v : String)
  /-- The option stands at `key` with no value after it; `next` is the item after it, if that
  is not taken. -/
  | bare (key : Nat) (next : Option Item)
  deriving Inhabited

namespace Line

def ofArgs (switches : List Char) (args : List String) : Line :=
  let items := go args false #[]
  ⟨items, Array.replicate items.size false⟩
where
  go : List String → Bool → Array Item → Array Item
    | [], _, acc => acc
    | a :: rest, true, acc => go rest true (acc.push (.path a))
    | a :: rest, false, acc =>
      if a == "--" then go rest true acc else go rest false (acc ++ (Item.cut switches a).toArray)

def size (l : Line) : Nat := l.items.size

def whole (l : Line) : Scope := ⟨0, l.size⟩

def get? (l : Line) (i : Nat) : Option Item :=
  if l.taken.getD i true then none else l.items[i]?

/-- The first item not taken in the scope that satisfies `p`, with its place. -/
def find? (l : Line) (s : Scope) (p : Item → Bool) : Option (Nat × Item) :=
  (List.range' s.start (s.stop - s.start)).findSome? fun i =>
    (l.get? i).bind fun x => if p x then some (i, x) else none

def first? (l : Line) (s : Scope) : Option (Nat × Item) := l.find? s fun _ => true

def take (l : Line) (i : Nat) : Line := { l with taken := l.taken.set! i true }

/-- Takes the first item of the scope that `p` accepts; answers whether there was one. -/
def takeSwitch (l : Line) (s : Scope) (p : Item → Bool) : Bool × Line :=
  match l.find? s p with
  | some (i, _) => (true, l.take i)
  | none => (false, l)

/-- Takes the first `--name` of the scope together with its value: the word or attached value
right after it. -/
def takeValued (l : Line) (s : Scope) (name : String) : Found × Line :=
  match l.find? s (Item.isLong name) with
  | none => (.absent, l)
  | some (i, _) =>
    match l.get? (i + 1) with
    | some (.word v) | some (.attached v) => (.value i v, (l.take i).take (i + 1))
    | next => (.bare i next, l)

/-- Takes every word and path of the scope, in order. -/
def takePositionals (l : Line) (s : Scope) : List String × Line :=
  let step (st : List String × Line) (i : Nat) : List String × Line :=
    match st.2.get? i with
    | some x => if x.isPositional then (st.1 ++ [x.text], st.2.take i) else st
    | none => st
  (List.range' s.start (s.stop - s.start)).foldl step ([], l)

/-- The place of the nearest item before `i` that names the same option as the item at `i`,
taken or not. -/
def earlierSame? (l : Line) (i : Nat) : Option Nat :=
  match l.items[i]? with
  | some x => (List.range i).reverse.find? fun j => (l.items[j]?.map (Item.sameName · x)).getD false
  | none => none

def has (l : Line) (s : Scope) (p : Item → Bool) : Bool := (l.find? s p).isSome

end Line

end AnnotatedYaml.Cli
