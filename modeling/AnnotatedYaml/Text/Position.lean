/-! Places in a text: a line and a column, both counted from zero, the column in characters. -/

namespace AnnotatedYaml

structure Position where
  line : Nat
  column : Nat
  deriving Repr, BEq, Inhabited, DecidableEq

namespace Position

def zero : Position := ⟨0, 0⟩

instance : Ord Position where
  compare a b := (compare a.line b.line).then (compare a.column b.column)

instance : LT Position := ltOfOrd
instance : LE Position := leOfOrd

instance (a b : Position) : Decidable (a < b) := inferInstanceAs (Decidable (_ = _))
instance (a b : Position) : Decidable (a ≤ b) := inferInstanceAs (Decidable (_ = _))

instance : Max Position := maxOfLe
instance : Min Position := minOfLe

/-- The position as people count it, both parts from one: `3:7`. -/
def display (p : Position) : String :=
  toString (p.line + 1) ++ ":" ++ toString (p.column + 1)

/-- `k` columns further on the same line. -/
def shift (p : Position) (k : Nat) : Position := ⟨p.line, p.column + k⟩

end Position

end AnnotatedYaml
