/-!
Words: whole numbers with a fixed number of bits.
-/

namespace Weaving.Word

/-- How many words there are with some number of bits. -/
def count (bits : Nat) : Nat := Nat.pow 2 bits

/-- Whether a number fits 64 bits, one of them for the sign. -/
def isSigned (value : Int) : Bool := -(count 63 : Int) ≤ value && value < count 63

theorem count_pos (bits : Nat) : 0 < count bits := Nat.pow_pos (by decide)

theorem isSigned_iff {value : Int} :
    isSigned value = true ↔ -(count 63 : Int) ≤ value ∧ value < count 63 := by
  simp only [isSigned, Bool.and_eq_true, decide_eq_true_eq]

end Weaving.Word
