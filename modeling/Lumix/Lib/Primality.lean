/-
Primality from a factorization of the predecessor.

Lucas's test asks for an element of order exactly `p - 1`. The order is
exact when no quotient of `p - 1` by one of its primes kills the element,
so the list of those primes and one element are a certificate. The primes
need certificates of their own; small ones are left to the caller.
-/
import Mathlib.Data.Nat.Factors
import Mathlib.NumberTheory.LucasPrimality

namespace Lumix.Primality

/-- `p` is prime if some `a` has order `p - 1`, given `p - 1` as a
product of primes. -/
theorem prime_of_factors {p : ℕ} (a : ZMod p) (factors : List ℕ)
    (hprime : ∀ q ∈ factors, q.Prime) (hprod : factors.prod = p - 1)
    (hone : a ^ (p - 1) = 1)
    (hne : ∀ q ∈ factors, a ^ ((p - 1) / q) ≠ 1) : p.Prime := by
  have hzero : (0 : ℕ) ∉ factors := fun h => (hprime 0 h).ne_zero rfl
  have hpos : p - 1 ≠ 0 := hprod ▸ List.prod_ne_zero hzero
  refine lucas_primality p a hone fun q hq hdvd => hne q ?_
  rw [(Nat.primeFactorsList_unique hprod hprime).mem_iff]
  exact (Nat.mem_primeFactorsList hpos).mpr ⟨hq, hdvd⟩

end Lumix.Primality
