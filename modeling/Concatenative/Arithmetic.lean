/-!
# Arithmetic of thirty-two bits

Integers are kept in two's complement of thirty-two bits, and quotients are rounded toward zero.
-/

namespace Concatenative

/-- The number of integers of thirty-two bits. -/
def modulus : Nat := 4294967296

/-- The least integer of thirty-two bits. -/
def minInt : Int := -2147483648

/-- The greatest integer of thirty-two bits. -/
def maxInt : Int := 2147483647

/-- The integer of thirty-two bits that is congruent to a number. -/
def wrap (number : Int) : Int :=
  number.bmod modulus

/-- The quotient rounded toward zero; nothing for a divisor of zero. -/
def quotient? (dividend divisor : Int) : Option Int :=
  if divisor = 0 then none else some (dividend.tdiv divisor)

theorem minInt_le_wrap (number : Int) : minInt ≤ wrap number := by
  have bound := Int.le_bmod (x := number) (m := modulus) (by decide)
  unfold wrap minInt
  unfold modulus at bound ⊢
  omega

theorem wrap_le_maxInt (number : Int) : wrap number ≤ maxInt := by
  have bound := Int.bmod_lt (x := number) (m := modulus) (by decide)
  unfold wrap maxInt
  unfold modulus at bound ⊢
  omega

theorem wrap_of_fits
    {number : Int}
    (least : minInt ≤ number)
    (greatest : number ≤ maxInt) :
    wrap number = number := by
  unfold minInt at least
  unfold maxInt at greatest
  apply Int.bmod_eq_of_le <;> simp only [modulus] <;> omega

/-- The thirty-two bits, read back as a signed number. -/
theorem wrap_eq_toInt (number : Int) : wrap number = (BitVec.ofInt 32 number).toInt := by
  rw [BitVec.toInt_ofInt]
  rfl

/-! ## Operands that were wrapped before -/

theorem wrap_add_wrap (left right : Int) : wrap (wrap left + wrap right) = wrap (left + right) := by
  simp only [wrap, Int.bmod_add_bmod, Int.add_bmod_bmod]

theorem wrap_sub_wrap (left right : Int) : wrap (wrap left - wrap right) = wrap (left - right) := by
  simp only [wrap, Int.bmod_sub_bmod, Int.sub_bmod_bmod]

theorem wrap_mul_wrap (left right : Int) : wrap (wrap left * wrap right) = wrap (left * right) := by
  simp only [wrap, Int.bmod_mul_bmod, Int.mul_bmod_bmod]

theorem wrap_neg_wrap (number : Int) : wrap (-wrap number) = wrap (-number) := by
  simp only [wrap, Int.bmod_neg_bmod]

end Concatenative
