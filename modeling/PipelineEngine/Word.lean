/-!
# Words

The bounds of whole numbers that are held in a number of bits.
-/

namespace PipelineEngine.Word

/-- The number of values that so many bits can hold, all of which lie below it. -/
def bound (bits : Nat) : Nat := Nat.pow 2 bits

/-- Whether an integer can be held in so many bits and a sign. -/
def fits (bits : Nat) (n : Int) : Bool := -(bound bits : Int) ≤ n && n < bound bits

end PipelineEngine.Word
