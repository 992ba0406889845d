import Mathlib.Data.ZMod.Basic
import Mathlib.Algebra.Module.Basic
import Mathlib.Tactic.Abel

/-!
# Recovering an ECDSA signer

The group of an elliptic curve, as far as recovery uses it: every point has order dividing `n`, and
a nonzero point is known by its `x` and the parity of its `y`, of which negation keeps the one and
flips the other. A signature and its negation, with the parity flipped, recover the same signer.
-/

namespace Ecdsa

/-- The negated scalar at the negated point. -/
theorem sub_smul_neg {n s : ℕ} {G : Type*} [AddCommGroup G] {P : G} (hP : n • P = 0)
    (hs : s ≤ n) : (n - s) • (-P) = s • P := by
  have hsum : (n - s) • P + s • P = 0 := by rw [← add_nsmul, Nat.sub_add_cancel hs, hP]
  rw [smul_neg, neg_eq_iff_add_eq_zero, hsum]

/-- A curve's group of order `n`. -/
structure CurveGroup (n : ℕ) (G : Type*) [AddCommGroup G] where
  base : G
  xCoord : G → ℕ
  yIsOdd : G → Bool
  /-- The nonzero point of a given `x` and parity, if there is one. -/
  decompress : ℕ → Bool → Option G
  smul_order : ∀ P : G, n • P = 0
  xCoord_neg : ∀ P, xCoord (-P) = xCoord P
  yIsOdd_neg : ∀ P, P ≠ 0 → yIsOdd (-P) = !yIsOdd P
  decompress_eq_some : ∀ x odd P,
    decompress x odd = some P ↔ P ≠ 0 ∧ xCoord P = x ∧ yIsOdd P = odd

namespace CurveGroup

variable {n : ℕ} {G : Type*} [AddCommGroup G] (C : CurveGroup n G)

/-- The other point of an `x` is the negation of the first. -/
theorem decompress_not {x : ℕ} {odd : Bool} {P : G} (h : C.decompress x odd = some P) :
    C.decompress x (!odd) = some (-P) := by
  obtain ⟨hne, hx, hodd⟩ := (C.decompress_eq_some x odd P).1 h
  refine (C.decompress_eq_some x (!odd) (-P)).2 ⟨neg_ne_zero.2 hne, ?_, ?_⟩
  · rw [C.xCoord_neg, hx]
  · rw [C.yIsOdd_neg P hne, hodd]

/-- The public key that a signature `(r, s)` of `z` and its recovery id stand for: the nonce's
point `R` from its `x` and parity, and from it `r⁻¹ (s R - z B)`. -/
def recover (z r s : ℕ) (yOdd xReduced : Bool) : Option G :=
  (C.decompress (if xReduced then r + n else r) yOdd).map fun R =>
    ((r : ZMod n)⁻¹).val • (s • R - z • C.base)

/-- Negating `s` and flipping the parity of `R` cancel. -/
theorem recover_neg {z r s : ℕ} {yOdd xReduced : Bool} {Q : G} (hs : s ≤ n)
    (h : C.recover z r s yOdd xReduced = some Q) :
    C.recover z r (n - s) (!yOdd) xReduced = some Q := by
  obtain ⟨R, hR, rfl⟩ := Option.map_eq_some_iff.1 h
  rw [recover, C.decompress_not hR, Option.map_some, sub_smul_neg (C.smul_order R) hs]

end CurveGroup

end Ecdsa
