import Mathlib.Algebra.Order.Ring.Int

/-!
# Signed 64-bit arithmetic

The checked operations of `i64`: a result that does not fit is `none`.  A number is an `Int`
that `InI64` holds of, so what the operations compute is compared with the same expression over
`Int`.
-/

namespace Rust

/-- The number is one of 64 bits. -/
def InI64 (n : Int) : Prop := -9223372036854775808 ≤ n ∧ n ≤ 9223372036854775807

instance (n : Int) : Decidable (InI64 n) := inferInstanceAs (Decidable (_ ∧ _))

/-- The number itself when it fits. -/
def checked (n : Int) : Option Int := if InI64 n then some n else none

def checkedAdd (a b : Int) : Option Int := checked (a + b)

def checkedSub (a b : Int) : Option Int := checked (a - b)

def checkedMul (a b : Int) : Option Int := checked (a * b)

@[simp] theorem checked_eq_some {n m : Int} : checked n = some m ↔ InI64 n ∧ n = m := by
  unfold checked
  split <;> simp [*]

@[simp] theorem checkedAdd_eq_some {a b n : Int} :
    checkedAdd a b = some n ↔ InI64 (a + b) ∧ a + b = n := checked_eq_some

@[simp] theorem checkedSub_eq_some {a b n : Int} :
    checkedSub a b = some n ↔ InI64 (a - b) ∧ a - b = n := checked_eq_some

@[simp] theorem checkedMul_eq_some {a b n : Int} :
    checkedMul a b = some n ↔ InI64 (a * b) ∧ a * b = n := checked_eq_some

end Rust
