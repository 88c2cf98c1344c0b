import AnnotatedYaml.Comment.Attach
import AnnotatedYaml.Layout.Render

/-! Building a tree and its comment table by hand, one step at a time, and asking
questions of them. -/

namespace AnnotatedYaml

inductive Step where
  | push (n : Node)
  | comment (node : Nat) (leading trailing : List String) (lineEnd : Option String)
  | bare
  | attach (text : String)
  | render (width : Nat)
  | walk
  | findScalar (value : String)
  | classify (node : Nat)
  | show
  deriving Inhabited

/-- The classes of a node that decide its layout. -/
structure NodeClasses where
  singleLine : Bool
  bullet : Bool
  anchor : Bool
  flow : Bool
  flowInFlow : Bool

inductive Reply where
  | added (id : Nat)
  | comments (slots : List (Nat × Attachment))
  | done
  | text (s : String)
  | walk (ids : List Nat)
  | found (id : Option Nat)
  | classes (c : NodeClasses)
  | whole (t : Tree) (slots : List (Nat × Attachment)) (all : List String)
  | failed (e : Error)
  /-- A question about a node the tree does not have. -/
  | noSuchNode (id : Nat)

structure Workbench where
  tree : Tree := Tree.empty
  comments : Comments := {}
  deriving Inhabited

def Workbench.apply (w : Workbench) : Step → Workbench × Reply
  | .push n =>
    match w.tree.push n with
    | .ok (id, tree) => ({ w with tree }, .added id)
    | .error e => (w, .failed e)
  | .comment i leading trailing lineEnd =>
    let c := w.comments.update i fun a =>
      { a with leading := a.leading ++ leading, trailing := a.trailing ++ trailing,
               lineEnd := lineEnd.orElse fun _ => a.lineEnd }
    ({ w with comments := c }, .comments c.filled)
  | .bare => ({ w with comments := Comments.forTree w.tree }, .done)
  | .attach text =>
    match Tree.attachComments text w.tree with
    | .ok a => ({ w with comments := a.comments }, .comments a.comments.filled)
    | .error e => (w, .failed e)
  | .render width =>
    match (IndentWidth.ofNat? width).bind (AnnotatedTree.render ⟨w.tree, w.comments⟩) with
    | .ok s => (w, .text s)
    | .error e => (w, .failed e)
  | .walk => (w, .walk w.tree.walk)
  | .findScalar v => (w, .found (w.tree.findScalar? v))
  | .classify i =>
    if i < w.tree.size then
      (w, .classes { singleLine := w.tree.isSingleLine w.comments i,
                     bullet := w.tree.hasBullets i, anchor := w.tree.hasAnchor i,
                     flow := w.tree.rendersInFlow i false,
                     flowInFlow := w.tree.rendersInFlow i true })
    else (w, .noSuchNode i)
  | .show => (w, .whole w.tree w.comments.filled w.comments.all)

/-- Runs the steps in order, collecting one reply per step. -/
def Workbench.run (steps : List Step) : List Reply :=
  (steps.foldl (fun (acc : Workbench × Array Reply) s =>
    let (w, r) := acc.1.apply s
    (w, acc.2.push r)) ({}, #[])).2.toList

end AnnotatedYaml
