/-!
Labels name watched expressions and groups of them. A number used as a label is its decimal text, and
labels are ordered by their characters.
-/
namespace ChangeWatch

structure Label where
  text : String
deriving DecidableEq, Repr

namespace Label

def ofNumber (n : UInt32) : Label := ⟨toString n.toNat⟩

def le (a b : Label) : Bool := !decide (b.text < a.text)

/-- Labels in order; equal labels stay beside each other. -/
def sort (labels : List Label) : List Label := labels.mergeSort le

end Label
end ChangeWatch
