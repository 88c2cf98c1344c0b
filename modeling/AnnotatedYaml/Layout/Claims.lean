import AnnotatedYaml.Layout.Classify

/-! Leading comments that move in front of a block sequence bullet. -/

namespace AnnotatedYaml

structure BulletClaims where
  claimed : Array Bool
  /-- For each sequence item, the claimed nodes with leading comments, top down. -/
  hoisted : Array (List Nat)
  /-- The first index taken past the end of the tree or of a table, where the pass would
  panic; it changes nothing else. -/
  panicked : Option Panic := none
  deriving Inhabited

namespace BulletClaims

def isClaimed (b : BulletClaims) (i : Nat) : Bool := b.claimed.getD i false

def hoistedOf (b : BulletClaims) (item : Nat) : List Nat := b.hoisted.getD item []

/-- Index `i` is taken into a vector of length `n`. -/
def check (b : BulletClaims) (i n : Nat) : BulletClaims :=
  if i < n || b.panicked.isSome then b else { b with panicked := some (.indexOutOfBounds i n) }

def claim (b : BulletClaims) (i : Nat) : BulletClaims :=
  let b := b.check i b.claimed.size
  { b with claimed := b.claimed.set! i true }

/-- Claims `item` and the first nodes nested in it that share the bullet's line: down
through first children of plain block collections, stopping after a mapping's first key. -/
def claimSpine (t : Tree) (c : Comments) (item : Nat) (b : BulletClaims) : BulletClaims :=
  let rec go : Nat → Nat → BulletClaims → List Nat → BulletClaims × List Nat
    | 0, _, b, acc => (b, acc)
    | fuel + 1, current, b, acc =>
      if b.isClaimed current then (b, acc)
      else
        let b := b.claim current
        let acc := if (c.leading current).isEmpty then acc else acc ++ [current]
        let b := b.check current t.size
        if !t.continuesOnBulletLine current then (b, acc)
        else
          match t.kind? current with
          | none => (b, acc)
          | some k =>
            match k.children with
            | [] => (b, acc)
            | first :: _ =>
              match k with
              | .mapping _ =>
                if b.isClaimed first then (b, acc)
                else
                  let acc := if (c.leading first).isEmpty then acc else acc ++ [first]
                  (b.claim first, acc)
              | _ => go fuel first b acc
  let (b, hoisted) := go (t.size + 1) item b []
  let b := b.check item b.hoisted.size
  { b with hoisted := b.hoisted.set! item hoisted }

def visit (t : Tree) (c : Comments) : Nat → Nat → Bool → BulletClaims → BulletClaims
  | 0, _, _, b => b
  | fuel + 1, id, inFlow, b =>
    let b := b.check id t.size
    let inFlow := t.rendersInFlow id inFlow || inFlow
    let kids := ((t.kind? id).map NodeKind.children).getD []
    let b := if !inFlow && t.hasBullets id then kids.foldl (fun b item => claimSpine t c item b) b
      else b
    kids.foldl (fun b child => visit t c fuel child inFlow b) b

/-- Nothing claimed yet: a table entry for every node of `t`. -/
def start (t : Tree) : BulletClaims :=
  { claimed := Array.replicate t.size false, hoisted := Array.replicate t.size [] }

/-- The claims of a whole tree. -/
def collect (t : Tree) (c : Comments) : BulletClaims :=
  match t.root? with
  | some r => visit t c (t.size + 1) r false (start t)
  | none => start t

end BulletClaims

end AnnotatedYaml
