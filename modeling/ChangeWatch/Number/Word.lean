/-!
Signed words of 64 bits, the integers that expressions compute with.
-/
namespace ChangeWatch

/-- The word with this value, if there is one. -/
def int64? (n : Int) : Option Int64 :=
  if -0x8000000000000000 ≤ n ∧ n < 0x8000000000000000 then some (Int64.ofInt n) else none

end ChangeWatch
