import Concatenative.Machine.Question
import Concatenative.Proofs.Library
import Concatenative.Proofs.Machine.Desk
import Concatenative.Proofs.Source.WellFormed
import Mathlib.Data.Int.ModEq

/-!
# Division

The word `/` divides the number on top of the data stack by the one below it. The quotient is
rounded toward zero: the remainder is smaller than the divisor, and it is zero or has the sign of
the dividend. Of all quotients of integers of thirty-two bits only one needs more bits itself, that
of the least integer by minus one.
-/

namespace Concatenative

/-! ## Quotients -/

/-- The quotient is rounded toward zero. -/
structure Truncates (dividend divisor quotient : Int) : Prop where
  /-- The remainder is smaller than the divisor. -/
  smaller : |dividend - quotient * divisor| < |divisor|
  /-- The remainder is zero or has the sign of the dividend. -/
  sameSign : dividend - quotient * divisor = 0 ∨
    (dividend - quotient * divisor).sign = dividend.sign

theorem truncates_tdiv
    (dividend : Int)
    {divisor : Int}
    (nonzero : divisor ≠ 0) :
    Truncates dividend divisor (dividend.tdiv divisor) := by
  have remainder : dividend - dividend.tdiv divisor * divisor = dividend.tmod divisor := by
    rw [Int.tmod_def, Int.mul_comm]
  constructor
  · rw [remainder, Int.abs_eq_natAbs, Int.abs_eq_natAbs, Int.natAbs_tmod]
    exact Int.ofNat_lt.mpr (Nat.mod_lt _ (Int.natAbs_pos.mpr nonzero))
  · rw [remainder]
    by_cases divides : divisor ∣ dividend
    · exact .inl (Int.tmod_eq_zero_of_dvd divides)
    · right
      rw [Int.sign_tmod, if_neg divides]

namespace Truncates

variable {dividend divisor quotient : Int}

theorem remainder_nonneg
    (truncates : Truncates dividend divisor quotient)
    (nonneg : 0 ≤ dividend) :
    0 ≤ dividend - quotient * divisor := by
  rcases truncates.sameSign with zero | same
  · exact Int.le_of_eq zero.symm
  · rwa [← Int.sign_nonneg_iff, same, Int.sign_nonneg_iff]

theorem remainder_nonpos
    (truncates : Truncates dividend divisor quotient)
    (nonpos : dividend ≤ 0) :
    dividend - quotient * divisor ≤ 0 := by
  rcases truncates.sameSign with zero | same
  · exact Int.le_of_eq zero
  · rwa [← Int.sign_nonpos_iff, same, Int.sign_nonpos_iff]

/-- No other quotient is rounded toward zero. -/
theorem eq_tdiv (truncates : Truncates dividend divisor quotient) :
    quotient = dividend.tdiv divisor := by
  have nonzero : divisor ≠ 0 := abs_pos.mp ((abs_nonneg _).trans_lt truncates.smaller)
  have whole : dividend - quotient * divisor + divisor * quotient = dividend := by
    rw [Int.mul_comm divisor, Int.sub_add_cancel]
  obtain ⟨above, below⟩ := abs_lt.mp truncates.smaller
  rw [Int.abs_eq_natAbs] at above below
  symm
  rcases Int.le_total 0 dividend with nonneg | nonpos
  · exact ((Int.tdiv_tmod_unique nonneg nonzero).mpr
      ⟨whole, truncates.remainder_nonneg nonneg, below⟩).1
  · exact ((Int.tdiv_tmod_unique' nonpos nonzero).mpr
      ⟨whole, above, truncates.remainder_nonpos nonpos⟩).1

/-- An integer of thirty-two bits has quotients of thirty-two bits, but for one division. -/
theorem inRange
    (truncates : Truncates dividend divisor quotient)
    (bounded : Source.InRange dividend)
    (other : ¬ (dividend = minInt ∧ divisor = -1)) :
    Source.InRange quotient := by
  have atMost : quotient.natAbs ≤ dividend.natAbs :=
    truncates.eq_tdiv ▸ Int.natAbs_tdiv_le_natAbs dividend divisor
  have smaller := abs_lt.mp truncates.smaller
  unfold Source.InRange minInt maxInt at bounded ⊢
  unfold minInt at other
  by_contra outside
  -- No absolute value is greater than that of the least integer, so there is one case to exclude.
  obtain ⟨rfl, rfl⟩ : quotient = 2147483648 ∧ dividend = -2147483648 := by omega
  rcases abs_choice divisor with positive | negative <;> omega

/-- Bringing the quotient into thirty-two bits changes it in one division only. -/
theorem wrap_eq
    (truncates : Truncates dividend divisor quotient)
    (bounded : Source.InRange dividend) :
    wrap quotient = if dividend = minInt ∧ divisor = -1 then minInt else quotient := by
  split
  next least =>
      obtain ⟨rfl, rfl⟩ := least
      rw [truncates.eq_tdiv]
      decide
  next other =>
      have fits := truncates.inRange bounded other
      exact wrap_of_fits fits.1 fits.2

end Truncates

theorem truncates_iff
    (dividend : Int)
    {divisor : Int}
    (nonzero : divisor ≠ 0)
    (quotient : Int) :
    Truncates dividend divisor quotient ↔ quotient = dividend.tdiv divisor := by
  constructor
  · exact Truncates.eq_tdiv
  · rintro rfl
    exact truncates_tdiv dividend nonzero

/-- The absolute values are divided, and the signs of the operands give the quotient its sign. -/
theorem tdiv_eq_signed (dividend divisor : Int) :
    dividend.tdiv divisor =
      if dividend < 0 ↔ divisor < 0 then |dividend| / |divisor|
      else -(|dividend| / |divisor|) := by
  rw [← Int.tdiv_eq_ediv_of_nonneg (abs_nonneg dividend)]
  rcases lt_or_ge dividend 0 with negative | nonneg
  · rcases lt_or_ge divisor 0 with negativeToo | nonnegToo
    · rw [if_pos (iff_of_true negative negativeToo), abs_of_neg negative, abs_of_neg negativeToo,
        Int.neg_tdiv_neg]
    · rw [if_neg (by omega), abs_of_neg negative, abs_of_nonneg nonnegToo, Int.neg_tdiv,
        Int.neg_neg]
  · rcases lt_or_ge divisor 0 with negativeToo | nonnegToo
    · rw [if_neg (by omega), abs_of_nonneg nonneg, abs_of_neg negativeToo, Int.tdiv_neg,
        Int.neg_neg]
    · rw [if_pos (by omega), abs_of_nonneg nonneg, abs_of_nonneg nonnegToo]

theorem quotient?_of_ne_zero
    (dividend : Int)
    {divisor : Int}
    (nonzero : divisor ≠ 0) :
    quotient? dividend divisor = some (dividend.tdiv divisor) :=
  if_neg nonzero

/-! ## Thirty-two bits -/

/-- An integer of thirty-two bits is known from its residue. -/
theorem eq_wrap_iff (number other : Int) :
    other = wrap number ↔ Source.InRange other ∧ other ≡ number [ZMOD 2 ^ 32] := by
  constructor
  · rintro rfl
    exact ⟨⟨minInt_le_wrap number, wrap_le_maxInt number⟩, Int.bmod_emod⟩
  · rintro ⟨inRange, congruent⟩
    have same : other % (modulus : Int) = number % (modulus : Int) := congruent
    calc other
      _ = wrap other := (wrap_of_fits inRange.1 inRange.2).symm
      _ = wrap number := by rw [wrap, ← Int.emod_bmod, same, Int.emod_bmod, wrap]

/-! ## The word `/` -/

/-- The words that stand for a number in arithmetic. -/
inductive Word.Denotes (number : Int) : Word → Prop
  | int : Denotes number (.int number)
  | hex (small : number ≤ maxInt) : Denotes number (.hex number)

theorem Word.Denotes.operand_eq
    {number : Int}
    {word : Word}
    (denotes : word.Denotes number) :
    word.operand = .ok number := by
  cases denotes with
  | int => rfl
  | hex small => exact operand_hex_of_le small

namespace Machine

variable {σ : Type} {host : Host σ} {machine : Machine σ}
variable {below rest : List Word} {left right : Word} {dividend divisor : Int}

theorem leaves_quotient
    (executing : machine.executing? = some (.div, below))
    (operands : machine.data = left :: right :: rest)
    (denotes : left.Denotes dividend)
    (denotesToo : right.Denotes divisor)
    (nonzero : divisor ≠ 0) :
    machine.Leaves host (.int (wrap (dividend.tdiv divisor)) :: rest) := by
  obtain ⟨name, next, bound⟩ := exists_atom_of_executing? executing
  have divided : Action.divided dividend divisor =
      .ok (.int (wrap (dividend.tdiv divisor))) := by
    rw [Action.divided, quotient?_of_ne_zero dividend nonzero]
  exact leaves_of_perform next bound
    (Action.combine_of_ok (data_begun.trans operands) denotes.operand_eq denotesToo.operand_eq
      divided)

theorem raises_divideByZero
    (executing : machine.executing? = some (.div, below))
    (operands : machine.data = left :: right :: rest)
    (denotes : left.Denotes dividend)
    (denotesToo : right.Denotes 0) :
    machine.Raises host .divideByZero := by
  obtain ⟨name, next, bound⟩ := exists_atom_of_executing? executing
  have refused : Action.divided dividend 0 = .error .divideByZero := rfl
  exact raises_of_perform next bound
    (Action.combine_of_error (data_begun.trans operands) denotes.operand_eq denotesToo.operand_eq
      refused)

/-- Division gives the quotient that is rounded toward zero, in thirty-two bits. By any divisor but
zero there is one such quotient: that of the absolute values, turned negative if just one of the
operands is negative. Bringing a number into thirty-two bits gives the one integer of thirty-two
bits that is congruent to it. The word `/` on two numbers replaces them by the quotient of the upper
one by the lower one, brought into thirty-two bits. If the dividend is one of thirty-two bits this
changes nothing, except that the least one divided by minus one is itself. The word fails because of
a division by zero if and only if the divisor is zero; outside all protected regions both operands
are then back in their places. -/
theorem division_truncates (host : Host σ) :
    (∀ dividend divisor : Int, divisor ≠ 0 →
      ∃ quotient,
        quotient? dividend divisor = some quotient ∧
        quotient =
          (if dividend < 0 ↔ divisor < 0 then |dividend| / |divisor|
            else -(|dividend| / |divisor|)) ∧
        ∀ other, Truncates dividend divisor other ↔ other = quotient) ∧
    (∀ number other : Int,
      other = wrap number ↔ Source.InRange other ∧ other ≡ number [ZMOD 2 ^ 32]) ∧
    ∀ (machine : Machine σ) (below rest : List Word) (left right : Word) (dividend divisor : Int),
      machine.executing? = some (.div, below) →
      machine.data = left :: right :: rest →
      left.Denotes dividend →
      right.Denotes divisor →
        (divisor ≠ 0 →
          ∃ quotient,
            quotient? dividend divisor = some quotient ∧
            machine.Leaves host (.int (wrap quotient) :: rest) ∧
            (Source.InRange dividend →
              wrap quotient = if dividend = minInt ∧ divisor = -1 then minInt else quotient)) ∧
        (machine.Raises host .divideByZero ↔ divisor = 0) ∧
        (divisor = 0 → machine.recovery = [] →
          ∃ final,
            (∀ steps, run host (steps + 1) machine =
              some (.error (.eval .divideByZero) final)) ∧
            machine.Untouched final) := by
  refine ⟨fun dividend divisor nonzero => ?_, eq_wrap_iff, ?_⟩
  · exact ⟨_, quotient?_of_ne_zero dividend nonzero, tdiv_eq_signed dividend divisor,
      truncates_iff dividend nonzero⟩
  · intro machine below rest left right dividend divisor executing operands denotes denotesToo
    have leaves (nonzero : divisor ≠ 0) :
        machine.Leaves host (.int (wrap (dividend.tdiv divisor)) :: rest) :=
      leaves_quotient executing operands denotes denotesToo nonzero
    have raises (zero : divisor = 0) : machine.Raises host .divideByZero :=
      raises_divideByZero executing operands denotes (zero ▸ denotesToo)
    refine ⟨fun nonzero => ?_, ⟨fun raised => ?_, raises⟩, fun zero unprotected => ?_⟩
    · exact ⟨_, quotient?_of_ne_zero dividend nonzero, leaves nonzero,
        (truncates_tdiv dividend nonzero).wrap_eq⟩
    · by_contra nonzero
      exact raised.not_leaves (leaves nonzero)
    · exact (raises zero).exists_untouched unprotected

/-- A negative number divided inside a protected region, the division whose quotient is too large,
and a division by zero. -/
theorem division_truncates_least :
    let machine (data : List Word) (recovery : List Snapshot) : Machine Answer :=
      { data := data
        code := [.atom "/", .atom "echo"]
        dictionary := Library.dictionary
        recovery := recovery
        tracing := true
        world := {} }
    (machine [.int (-7), .hex 2, .str "below"] [⟨[], [], []⟩]).Leaves Answer.host
        [.int (-3), .str "below"] ∧
      (machine [.int (-2147483648), .int (-1), .str "below"] []).Leaves Answer.host
        [.int (-2147483648), .str "below"] ∧
      ∃ final,
        (∀ steps, run Answer.host (steps + 1) (machine [.hex 5, .int 0, .str "below"] []) =
          some (.error (.eval .divideByZero) final)) ∧
        final.data = [.hex 5, .int 0, .str "below"] ∧
        final.code = [.atom "/", .atom "echo"] := by
  intro machine
  have executing (data : List Word) (recovery : List Snapshot) :
      (machine data recovery).executing? = some (.div, [.atom "echo"]) :=
    executing?_of_primitive rfl (Library.get?_name .div)
  have divides := (division_truncates Answer.host).2.2
  refine ⟨?_, ?_, ?_⟩
  · obtain ⟨quotient, found, leaves, -⟩ :=
      (divides _ _ _ _ _ (-7) 2 (executing _ _) rfl .int (.hex (by decide))).1 (by decide)
    cases found
    exact leaves
  · obtain ⟨quotient, found, leaves, -⟩ :=
      (divides _ _ _ _ _ (-2147483648) (-1) (executing _ _) rfl .int .int).1 (by decide)
    cases found
    exact leaves
  · obtain ⟨final, failure, same⟩ :=
      (divides _ _ _ _ _ 5 0 (executing _ _) rfl (.hex (by decide)) .int).2.2 rfl rfl
    exact ⟨final, failure, same.data, same.code⟩

end Machine
end Concatenative
