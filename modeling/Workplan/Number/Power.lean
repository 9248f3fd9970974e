/-! Powers of whole numbers. Wherever this module is imported, a power with a written exponent is
the one of the core library, also beside libraries that define powers of their own, so that all
parts of this library mean the same by it. -/

attribute [default_instance 10001] instPowNat

namespace Workplan
set_option autoImplicit false

/-- The power of a base; one where the exponent is below zero. -/
def power (base : Nat) (exponent : Int) : Nat := Nat.pow base exponent.toNat

theorem power_of_nonpos {base : Nat} {exponent : Int} (h : exponent ≤ 0) :
    power base exponent = 1 := by
  have : exponent.toNat = 0 := by omega
  rw [power, this]
  rfl

theorem power_natCast (base n : Nat) : power base n = Nat.pow base n := rfl

end Workplan
