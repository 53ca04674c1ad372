/-!
Tables of code points: arrays of ranges with both ends included.
-/

namespace YamlOutline.Text.Table

/-- Whether a range of the table has the number. -/
def has (table : Array (Nat × Nat)) (n : Nat) : Bool :=
  table.any fun (first, last) => first ≤ n && n ≤ last

end YamlOutline.Text.Table
