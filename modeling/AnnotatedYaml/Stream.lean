import AnnotatedYaml.Comment.Attach
import AnnotatedYaml.Tree.Build
import AnnotatedYaml.Layout.Render

/-! The round trip of a YAML text: reading it into an annotated tree, and what the text turns into
when written back, with and without its comments, and when read and written a second time. -/

namespace AnnotatedYaml

/-- Reads a text and attributes its comments. -/
def AnnotatedTree.parse (text : String) : Except Error AnnotatedTree := do
  Tree.attachComments text (← Tree.parse text)

/-- The number of the stream's first document. -/
def Tree.firstDocument? (t : Tree) : Option Nat := do
  let r ← t.root?
  let k ← t.kind? r
  k.children.head?

/-- Everything the round trip of one text shows. -/
structure RoundTrip where
  annotated : AnnotatedTree
  firstDocument : Option Nat
  rendered : Except Error String
  bare : Except Error String
  /-- The rendered text read and written again; absent when writing failed. -/
  rerendered : Option (Except Error String)

def RoundTrip.run (text : String) (indent : IndentWidth) : Except Error RoundTrip := do
  let a ← AnnotatedTree.parse text
  let rendered := a.render indent
  let rerendered := match rendered with
    | .ok r => some ((AnnotatedTree.parse r).bind (·.render indent))
    | .error _ => none
  return { annotated := a, firstDocument := a.tree.firstDocument?, rendered,
           bare := (AnnotatedTree.bare a.tree).render indent, rerendered }

end AnnotatedYaml
