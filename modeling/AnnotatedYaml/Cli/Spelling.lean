import AnnotatedYaml.Cli.Item
import AnnotatedYaml.Cli.Refusal

/-! Suggesting what a mistyped item meant. -/

namespace AnnotatedYaml.Cli

/-- One row of the restricted edit distance: the row for one more letter `ca` of the first
name, from the two rows before it and the letter `pa` before `ca`. -/
def distanceRow (b : List Char) (prev prev2 : Array Nat) (pa : Option Char) (ca : Char) (i : Nat) :
    Array Nat :=
  let step (st : Array Nat × Option Char × Nat) (cb : Char) : Array Nat × Option Char × Nat :=
    let (row, pb, j) := st
    let cost := if ca == cb then 0 else 1
    let d := min (min (prev.getD j 0 + 1) (row.getD (j - 1) 0 + 1)) (prev.getD (j - 1) 0 + cost)
    let d := if i > 1 && j > 1 && some ca == pb && some cb == pa then min d (prev2.getD (j - 2) 0 + 1) else d
    (row.push d, some cb, j + 1)
  (b.foldl step (#[i], none, 1)).1

/-- The restricted edit distance of two names: insertions, deletions, substitutions and swaps
of neighbours each count one. -/
def editDistance (a b : List Char) : Nat :=
  let first : Array Nat := (List.range (b.length + 1)).toArray
  let step (st : Array Nat × Array Nat × Option Char × Nat) (ca : Char) :
      Array Nat × Array Nat × Option Char × Nat :=
    let (prev, prev2, pa, i) := st
    (distanceRow b prev prev2 pa ca i, prev, some ca, i + 1)
  (a.foldl step (first, first, none, 1)).1.getD b.length 0

/-- The distance of two names that are alike: one to three edits, and fewer than the length of
either. -/
def likeness (a b : String) : Option Nat :=
  let d := editDistance a.toList b.toList
  if 0 < d && d < 4 && d < min a.length b.length then some d else none

/-- The first of the nearest alike names, with what it stands for. -/
def closest {α : Type} (word : String) (names : List (String × α)) : Option α :=
  let better (best : Option (Nat × α)) (c : String × α) : Option (Nat × α) :=
    match likeness word c.1, best with
    | some d, some (bd, _) => if d < bd then some (d, c.2) else best
    | some d, none => some (d, c.2)
    | none, _ => best
  (names.foldl better none).map (·.2)

inductive Meant
  | option (long : String)
  | command (name : String)

structure Level where
  /-- Long options, and the short switches among them. -/
  longs : List String
  shorts : List Char
  commands : List String
  /-- The long options of each command below this level. -/
  nested : List (String × List String)

def Item.kind (x : Item) : String :=
  if x.label.startsWith "-" then "flag"
  else
    match x with
    | .short .. | .long .. => "flag"
    | .attached _ => "argument value"
    | .word _ | .path _ => "command or positional"

/-- A suggestion for an item that does not fit the level, if one applies. Paths and the later
letters of a run of switches get none. -/
def Level.suggest (lv : Level) (x : Item) : Option Refusal :=
  if x.text.isEmpty || x matches .path _ then none else
  let shown := x.label
  let sentTo := (lv.nested.filter fun (_, ls) => ls.any fun l => "--" ++ l == shown).getLast?
  let names := lv.longs.map (fun l => ("--" ++ l, Meant.option l)) ++
    lv.commands.map fun c => (c, Meant.command c)
  match sentTo with
  | some (cmd, _) => some (.elsewhere "flag" shown cmd)
  | none =>
    match x with
    | .long n _ _ =>
      match n.toList with
      | [c] => if lv.shorts.contains c then some (.twoDashes c) else guess shown names x
      | _ => guess shown names x
    | _ => guess shown names x
where
  guess (shown : String) (names : List (String × Meant)) (x : Item) : Option Refusal :=
    (closest shown names).map fun
      | .option l => if shown == "-" ++ l then .oneDash l else .noSuch x.kind shown ("--" ++ l)
      | .command c => .noSuch x.kind shown c

end AnnotatedYaml.Cli
