/-! Sets of characters given as ranges of code points. The tables of this folder are those of
Unicode 17.0. -/
namespace FormulaRoots.Unicode

abbrev Ranges := List (Nat × Nat)

def Ranges.has (rs : Ranges) (c : Char) : Bool :=
  rs.any fun r => decide (r.1 ≤ c.toNat) && decide (c.toNat ≤ r.2)

end FormulaRoots.Unicode
