/-! Line differences between two texts, written as a unified diff. -/

namespace AnnotatedYaml.LineDiff

/-- Cuts a text into lines that keep their breaks: `\n`, `\r\n` or a lone `\r` ends a line,
and what follows the last break is a line of its own when it is not empty. -/
def lines (text : String) : Array String :=
  go text.toList [] #[]
where
  go : List Char → List Char → Array String → Array String
    | [], cur, acc => if cur.isEmpty then acc else acc.push (String.ofList cur.reverse)
    | '\r' :: '\n' :: rest, cur, acc =>
      go rest [] (acc.push (String.ofList ('\n' :: '\r' :: cur).reverse))
    | c :: rest, cur, acc =>
      if c == '\r' || c == '\n' then go rest [] (acc.push (String.ofList (c :: cur).reverse))
      else go rest (c :: cur) acc

/-- The number of equal lines, at most `limit`, from `a[i]` and `b[j]` on. -/
def commonHead (a : Array String) (i : Nat) (b : Array String) (j : Nat) (limit : Nat) : Nat :=
  go i j limit 0
where
  go (i j : Nat) : Nat → Nat → Nat
    | 0, n => n
    | fuel + 1, n =>
      match a[i]?, b[j]? with
      | some x, some y => if x == y then go (i + 1) (j + 1) fuel (n + 1) else n
      | _, _ => n

/-- The number of equal lines, at most `limit`, that end just before `a[i]` and `b[j]`. -/
def commonTail (a : Array String) (i : Nat) (b : Array String) (j : Nat) (limit : Nat) : Nat :=
  go i j limit 0
where
  go (i j : Nat) : Nat → Nat → Nat
    | 0, n => n
    | fuel + 1, n =>
      match i, j with
      | i + 1, j + 1 =>
        match a[i]?, b[j]? with
        | some x, some y => if x == y then go i j fuel (n + 1) else n
        | _, _ => n
      | _, _ => n

/-- What an edit does with its lines. -/
inductive EditKind
  | keep
  | drop
  | add
  deriving BEq, DecidableEq, Repr, Inhabited

/-- A run of `len` lines that both texts keep, that the new text drops, or that it adds.
`old` and `new` say where the run stands in each text; a dropped run takes no room in the new
text and an added run none in the old one. -/
structure Edit where
  kind : EditKind
  old : Nat
  new : Nat
  len : Nat
  deriving BEq, Repr, Inhabited

namespace Edit

def oldLen (e : Edit) : Nat := if e.kind == .add then 0 else e.len

def newLen (e : Edit) : Nat := if e.kind == .drop then 0 else e.len

def oldEnd (e : Edit) : Nat := e.old + e.oldLen

def newEnd (e : Edit) : Nat := e.new + e.newLen

def moveUp (e : Edit) (k : Nat) : Edit := { e with old := e.old - k, new := e.new - k }

def moveDown (e : Edit) (k : Nat) : Edit := { e with old := e.old + k, new := e.new + k }

def growUp (e : Edit) (k : Nat) : Edit := { e with old := e.old - k, new := e.new - k, len := e.len + k }

def growDown (e : Edit) (k : Nat) : Edit := { e with len := e.len + k }

def cutEnd (e : Edit) (k : Nat) : Edit := { e with len := e.len - k }

def cutStart (e : Edit) (k : Nat) : Edit :=
  { e with old := e.old + k, new := e.new + k, len := e.len - k }

end Edit

/-- The part of both texts still to compare: old lines `[oldStart, oldStop)` against new lines
`[newStart, newStop)`. -/
structure Box where
  oldStart : Nat
  oldStop : Nat
  newStart : Nat
  newStop : Nat

/-- The furthest point reached on each diagonal `k` (old line minus new line) by one direction
of the search. -/
structure Reach where
  cells : Array Int
  offset : Int

namespace Reach

def init (size : Nat) : Reach := ⟨Array.replicate (2 * size + 2) 0, size⟩

def get (r : Reach) (k : Int) : Int := r.cells.getD (k + r.offset).toNat 0

def set (r : Reach) (k x : Int) : Reach := { r with cells := r.cells.setIfInBounds (k + r.offset).toNat x }

end Reach

/-- The diagonals of depth `d`, from `d` down to `-d` in steps of two. -/
def diagonals (d : Nat) : List Int := (List.range (d + 1)).map fun (i : Nat) => (d : Int) - 2 * (i : Int)

section Snake

variable (a b : Array String) (box : Box)

/-- One forward step of depth `d`: extends every diagonal from the top left, and answers the
start of a snake once a forward path meets a backward one (only when the two lengths differ by
an odd number). -/
def forward (d : Int) (back : Reach) : Reach → List Int → Reach × Option (Nat × Nat)
  | fore, [] => (fore, none)
  | fore, k :: ks =>
    let n : Int := box.oldStop - box.oldStart
    let m : Int := box.newStop - box.newStart
    let delta := n - m
    let x := if k == -d || (k != d && fore.get (k - 1) < fore.get (k + 1)) then fore.get (k + 1)
      else fore.get (k - 1) + 1
    let y := x - k
    let x' := if x < n && 0 ≤ y && y < m then
        x + commonHead a (box.oldStart + x.toNat) b (box.newStart + y.toNat) (min (n - x) (m - y)).toNat
      else x
    let fore := fore.set k x'
    if delta % 2 == 1 && ((k - delta).natAbs : Int) ≤ d - 1 && fore.get k + back.get (-(k - delta)) ≥ n then
      (fore, some (box.oldStart + x.toNat, box.newStart + y.toNat))
    else forward d back fore ks

/-- One backward step of depth `d`: extends every diagonal from the bottom right, and answers
the point where a backward path meets a forward one (only when the two lengths differ by an
even number). -/
def backward (d : Int) (fore : Reach) : Reach → List Int → Reach × Option (Nat × Nat)
  | back, [] => (back, none)
  | back, k :: ks =>
    let n : Int := box.oldStop - box.oldStart
    let m : Int := box.newStop - box.newStart
    let delta := n - m
    let x := if k == -d || (k != d && back.get (k - 1) < back.get (k + 1)) then back.get (k + 1)
      else back.get (k - 1) + 1
    let y := x - k
    let t := if x < n && 0 ≤ y && y < m then
        (commonTail a (box.oldStart + (n - x).toNat) b (box.newStart + (m - y).toNat)
          (min (n - x) (m - y)).toNat : Int)
      else 0
    let back := back.set k (x + t)
    if delta % 2 == 0 && ((k - delta).natAbs : Int) ≤ d && back.get k + fore.get (-(k - delta)) ≥ n then
      (back, some (box.oldStart + (n - x - t).toNat, box.newStart + (m - y - t).toNat))
    else backward d fore back ks

/-- Searches depth after depth for a middle snake, the point where the forward and the backward
search meet; an edit script of least length passes through it. -/
def middleSnake : Option (Nat × Nat) :=
  let size := (box.oldStop - box.oldStart + (box.newStop - box.newStart) + 1) / 2 + 1
  search 0 size (Reach.init size) (Reach.init size)
where
  search (d : Nat) : Nat → Reach → Reach → Option (Nat × Nat)
    | 0, _, _ => none
    | fuel + 1, fore, back =>
      match forward a b box d back fore (diagonals d) with
      | (_, some p) => some p
      | (fore, none) =>
        match backward a b box d fore back (diagonals d) with
        | (_, some p) => some p
        | (back, none) => search (d + 1) fuel fore back

end Snake

/-- The edit script for one box: the common head and tail are kept, a side left empty makes
the rest one drop or one add, and otherwise the box is split at its middle snake. -/
def solve (a b : Array String) : Nat → Box → Array Edit → Array Edit
  | fuel, box, acc =>
    let head := commonHead a box.oldStart b box.newStart
      (min (box.oldStop - box.oldStart) (box.newStop - box.newStart))
    let acc := if head > 0 then acc.push ⟨.keep, box.oldStart, box.newStart, head⟩ else acc
    let os := box.oldStart + head
    let ns := box.newStart + head
    let tail := commonTail a box.oldStop b box.newStop (min (box.oldStop - os) (box.newStop - ns))
    let oe := box.oldStop - tail
    let ne := box.newStop - tail
    let whole (acc : Array Edit) : Array Edit :=
      (acc.push ⟨.drop, os, ns, oe - os⟩).push ⟨.add, os, ns, ne - ns⟩
    let acc :=
      if oe ≤ os && ne ≤ ns then acc
      else if ne ≤ ns then acc.push ⟨.drop, os, ns, oe - os⟩
      else if oe ≤ os then acc.push ⟨.add, os, ns, ne - ns⟩
      else match fuel with
        | 0 => whole acc
        | fuel + 1 =>
          match middleSnake a b ⟨os, oe, ns, ne⟩ with
          | some (x, y) => solve a b fuel ⟨x, oe, y, ne⟩ (solve a b fuel ⟨os, x, ns, y⟩ acc)
          | none => whole acc
    if tail > 0 then acc.push ⟨.keep, oe, ne, tail⟩ else acc

section Settle

variable (a b : Array String)

/-- Slides the change at `i` up: past kept lines that equal its own last lines, past a change
of the other kind, and into a change of its own kind, which it joins. -/
def slideUp : Nat → Array Edit → Nat → Array Edit × Nat
  | 0, edits, i => (edits, i)
  | fuel + 1, edits, i =>
    match i with
    | 0 => (edits, 0)
    | p + 1 =>
      let prev := edits[p]!
      let this := edits[p + 1]!
      match this.kind, prev.kind with
      | .keep, _ => (edits, i)
      | _, .keep =>
        let s := commonTail a prev.oldEnd b this.newEnd (min prev.len this.newLen)
        if s > 0 then
          let edits :=
            if edits[p + 2]?.map (·.kind) == some .keep then edits.modify (p + 2) (·.growUp s)
            else edits.insertIdxIfInBounds (p + 2) ⟨.keep, prev.oldEnd - s, this.newEnd - s, s⟩
          let edits := (edits.modify (p + 1) (·.moveUp s)).modify p (·.cutEnd s)
          if edits[p]!.len == 0 then slideUp fuel (edits.eraseIdxIfInBounds p) p
          else slideUp fuel edits i
        else if prev.len == 0 then slideUp fuel (edits.eraseIdxIfInBounds p) p
        else (edits, i)
      | .add, .drop | .drop, .add => slideUp fuel (edits.swapIfInBounds p (p + 1)) p
      | _, _ => slideUp fuel ((edits.modify p (·.growDown this.len)).eraseIdxIfInBounds (p + 1)) p

/-- Slides the change at `i` down, the mirror image of `slideUp`. -/
def slideDown : Nat → Array Edit → Nat → Array Edit × Nat
  | 0, edits, i => (edits, i)
  | fuel + 1, edits, i =>
    match edits[i + 1]? with
    | none => (edits, i)
    | some next =>
      let this := edits[i]!
      match this.kind, next.kind with
      | .keep, _ => (edits, i)
      | _, .keep =>
        let s := commonHead a next.old b this.new (min next.len this.newLen)
        if s > 0 then
          let (edits, i) :=
            match i with
            | p + 1 =>
              if edits[p]!.kind == EditKind.keep then (edits.modify p (·.growDown s), i)
              else (edits.insertIdxIfInBounds i ⟨.keep, next.old, this.new, s⟩, i + 1)
            | 0 => (edits.insertIdxIfInBounds 0 ⟨.keep, next.old, this.new, s⟩, 1)
          let edits := (edits.modify i (·.moveDown s)).modify (i + 1) (·.cutStart s)
          if edits[i + 1]!.len == 0 then slideDown fuel (edits.eraseIdxIfInBounds (i + 1)) i
          else slideDown fuel edits i
        else if next.len == 0 then slideDown fuel (edits.eraseIdxIfInBounds (i + 1)) i
        else (edits, i)
      | .add, .drop | .drop, .add => slideDown fuel (edits.swapIfInBounds i (i + 1)) (i + 1)
      | _, _ => slideDown fuel ((edits.modify i (·.growDown next.len)).eraseIdxIfInBounds (i + 1)) i

/-- Slides every change of one kind up and then down, from the first edit to the last. -/
def settleKind (kind : EditKind) (budget : Nat) : Nat → Array Edit → Nat → Array Edit
  | 0, edits, _ => edits
  | fuel + 1, edits, i =>
    match edits[i]? with
    | none => edits
    | some e =>
      if e.kind == kind then
        let (edits, i) := slideUp a b budget edits i
        let (edits, i) := slideDown a b budget edits i
        settleKind kind budget fuel edits (i + 1)
      else settleKind kind budget fuel edits (i + 1)

/-- Slides the drops, then the adds, so that changes separated only by lines equal to their
own meet and merge. -/
def settle (edits : Array Edit) : Array Edit :=
  let budget := 2 * (edits.size + a.size + b.size) + 2
  let edits := settleKind a b .drop budget (2 * budget) edits 0
  settleKind a b .add budget (2 * budget) edits 0

end Settle

/-- A stretch of the comparison: `len` lines both texts keep, or a change that drops `dropped`
old lines and adds `added` new ones in their place. -/
inductive Block
  | same (old new len : Nat)
  | change (old dropped new added : Nat)
  deriving BEq, Repr, Inhabited

namespace Block

def oldStart : Block → Nat
  | same o _ _ => o
  | change o _ _ _ => o

def newStart : Block → Nat
  | same _ n _ => n
  | change _ _ n _ => n

def oldStop : Block → Nat
  | same o _ l => o + l
  | change o d _ _ => o + d

def newStop : Block → Nat
  | same _ n l => n + l
  | change _ _ n a => n + a

end Block

/-- Edits waiting to become a block: a kept run, or a run of drops and a run of adds. -/
structure Pending where
  same : Option (Nat × Nat × Nat) := none
  dropped : Option (Nat × Nat × Nat) := none
  added : Option (Nat × Nat × Nat) := none

namespace Pending

/-- Ends the pending change: drops and adds together are one block. -/
def flushChange (p : Pending) (out : Array Block) : Pending × Array Block :=
  match p.dropped, p.added with
  | some (o, d, _), some (_, n, a) => ({ p with dropped := none, added := none }, out.push (.change o d n a))
  | some (o, d, n), none => ({ p with dropped := none }, out.push (.change o d n 0))
  | none, some (o, n, a) => ({ p with added := none }, out.push (.change o 0 n a))
  | none, none => (p, out)

def flushSame (p : Pending) (out : Array Block) : Pending × Array Block :=
  match p.same with
  | some (o, n, l) => ({ p with same := none }, out.push (.same o n l))
  | none => (p, out)

def step (st : Pending × Array Block) (e : Edit) : Pending × Array Block :=
  let (p, out) := st
  match e.kind with
  | .keep =>
    let (p, out) := p.flushChange out
    match p.same with
    | some (o, n, l) => ({ p with same := some (o, n, l + e.len) }, out)
    | none => ({ p with same := some (e.old, e.new, e.len) }, out)
  | .drop =>
    let (p, out) := p.flushSame out
    match p.dropped with
    | some (o, d, n) => ({ p with dropped := some (o, d + e.len, n) }, out)
    | none => ({ p with dropped := some (e.old, e.len, e.new) }, out)
  | .add =>
    let (p, out) := p.flushSame out
    match p.added with
    | some (o, n, a) => ({ p with added := some (o, n, a + e.len) }, out)
    | none => ({ p with added := some (e.old, e.new, e.len) }, out)

end Pending

/-- Joins neighbouring kept runs, and the drops and adds between two kept runs, into blocks. -/
def blocksOf (edits : Array Edit) : Array Block :=
  let (p, out) := edits.foldl Pending.step ({}, #[])
  let (p, out) := p.flushSame out
  (p.flushChange out).2

/-- The blocks that turn the lines `a` into the lines `b`. -/
def changes (a b : Array String) : Array Block :=
  blocksOf (settle a b (solve a b (a.size + b.size + 1) ⟨0, a.size, 0, b.size⟩ #[]))

def kept (blocks : Array Block) : Nat :=
  blocks.foldl (fun n b => match b with | .same _ _ l => n + l | .change .. => n) 0

/-- Groups the blocks into hunks: a kept run at either end keeps only `context` lines, and a
kept run longer than twice `context` ends one hunk and starts the next. A hunk without a change
is left out. -/
def hunks (context : Nat) (blocks : Array Block) : Array (Array Block) :=
  if blocks.isEmpty then #[] else
  let blocks := match blocks[0]? with
    | some (.same o n l) =>
      let cut := l - context
      blocks.set! 0 (.same (o + cut) (n + cut) (l - cut))
    | _ => blocks
  let last := blocks.size - 1
  let blocks := match blocks[last]? with
    | some (.same o n l) => blocks.set! last (.same o n (l - (l - context)))
    | _ => blocks
  let step (st : Array Block × Array (Array Block)) (b : Block) : Array Block × Array (Array Block) :=
    let (pending, out) := st
    match b with
    | .same o n l =>
      if l > 2 * context then
        let cut := l - context
        (#[.same (o + cut) (n + cut) (l - cut)], out.push (pending.push (.same o n context)))
      else (pending.push b, out)
    | .change .. => (pending.push b, out)
  let (pending, out) := blocks.foldl step (#[], #[])
  match pending.toList with
  | [] | [.same ..] => out
  | _ => out.push pending

/-- A line range of a hunk header: the first line and the count, counting from one; a single
line is its number alone, and an empty range names the line before it. -/
def rangeText (start stop : Nat) : String :=
  let len := stop - start
  if len == 1 then toString (start + 1)
  else toString (if len == 0 then start else start + 1) ++ "," ++ toString len

/-- One line of a hunk under its mark; a line without a break is followed by a note. -/
def markLine (mark : Char) (line : String) : String :=
  let body := mark.toString ++ line
  if line.endsWith "\n" || line.endsWith "\r" then body
  else body ++ "\n\\ No newline at end of file\n"

def markLines (mark : Char) (ls : Array String) (start stop : Nat) : String :=
  ((ls.extract start stop).map (markLine mark)).foldl (· ++ ·) ""

/-- A hunk: its header, then every kept line under a space, and every change as its dropped
lines under a minus followed by its added lines under a plus. -/
def hunkText (a b : Array String) (hunk : Array Block) : String :=
  match hunk[0]?, hunk.back? with
  | some first, some final =>
    let header := "@@ -" ++ rangeText first.oldStart final.oldStop ++ " +" ++
      rangeText first.newStart final.newStop ++ " @@\n"
    let step (acc : String) (blk : Block) : String :=
      match blk with
      | .same o _ l => acc ++ markLines ' ' a o (o + l)
      | .change o d n k => acc ++ markLines '-' a o (o + d) ++ markLines '+' b n (n + k)
    hunk.foldl step header
  | _, _ => ""

/-- The unified diff from `old` to `new` with `context` kept lines around each change, under a
two-line header naming both sides; empty when the texts have the same lines. -/
def unified (context : Nat) (oldLabel newLabel : String) (a b : Array String) (blocks : Array Block) :
    String :=
  match hunks context blocks with
  | #[] => ""
  | hs => hs.foldl (fun acc h => acc ++ hunkText a b h)
      ("--- " ++ oldLabel ++ "\n+++ " ++ newLabel ++ "\n")

end AnnotatedYaml.LineDiff
