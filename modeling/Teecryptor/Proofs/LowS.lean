import Teecryptor.Lib.Ecdsa
import Teecryptor.Signing
import Mathlib.Logic.Equiv.Basic
import Mathlib.Tactic.NormNum.GCD

/-!
# Low-S signatures

The k256 signer may return either form of a signature. `sign_prehash` returns the low one, and a
recovery id that recovers the same signer: where it negates `s` it flips the parity, and only
there.
-/

namespace Teecryptor

open Bytes Ecdsa Rust

variable {G : Type*} [AddCommGroup G]

theorem isHigh_iff {sig : Signature} : sig.isHigh = true ↔ secp256k1Order / 2 < sig.s := by
  simp [Signature.isHigh]

/-- What `sign_prehash` returns, in the two cases of what the key signed with. -/
theorem signPrehash_eq {signer : Signer} {hash : FixedBytes 32} {sig : Signature}
    {recid : RecoveryId} (h : signer.signingKey hash = .ok (sig, recid)) :
    signer.signPrehash hash = .ok (if sig.isHigh
      then (⟨sig.r, secp256k1Order - sig.s⟩, ⟨!recid.isYOdd, recid.isXReduced⟩)
      else (sig, recid)) := by
  unfold Signer.signPrehash
  rw [h]
  by_cases hhigh : sig.isHigh = true
  · simp [Except.mapError, Signature.normalizeS, hhigh]
  · simp [Except.mapError, Signature.normalizeS, hhigh]

/-- A recovery id is a byte below 4, so the offset of the EVM format fits. -/
theorem toByte_lt (id : RecoveryId) : id.toByte.toNat < 4 := by
  rcases id with ⟨_ | _, _ | _⟩ <;> decide

theorem toNat_toByte (id : RecoveryId) :
    id.toByte.toNat = 2 * id.isXReduced.toNat + id.isYOdd.toNat := by
  rcases id with ⟨_ | _, _ | _⟩ <;> decide

theorem toNat_convertV_evm (id : RecoveryId) :
    (SignatureVFormat.evm.convertV id.toByte).toNat = id.toByte.toNat + 27 := by
  have h := toByte_lt id
  rw [SignatureVFormat.convertV, UInt8.toNat_add, show evmRecoveryIdOffset.toNat = 27 from rfl]
  exact Nat.mod_eq_of_lt (by omega)

theorem length_toBytes (sig : Signature) : sig.toBytes.length = 64 := by
  simp [Signature.toBytes]

/-- Whichever form the key returns, `sign_prehash` returns the low one, for the same `r` and the
same signer, and a low one as it is. The 65 bytes that are sent are `r`, the low `s` and the
recovery id, and differ between the formats in the last alone, by 27. -/
theorem low_s_same_signer (C : CurveGroup secp256k1Order G) {signer : Signer}
    {hash : FixedBytes 32} {sig : Signature} {recid : RecoveryId}
    (hsign : signer.signingKey hash = .ok (sig, recid)) (hs : sig.s < secp256k1Order) {z : ℕ}
    {Q : G} (hQ : C.recover z sig.r sig.s recid.isYOdd recid.isXReduced = some Q) :
    ∃ sig' recid', signer.signPrehash hash = .ok (sig', recid')
      ∧ sig'.s ≤ secp256k1Order / 2 ∧ sig'.r = sig.r
      ∧ C.recover z sig'.r sig'.s recid'.isYOdd recid'.isXReduced = some Q
      ∧ (sig.s ≤ secp256k1Order / 2 → sig' = sig ∧ recid' = recid)
      ∧ ∃ (bytes : List UInt8) (v w : UInt8), bytes = toBe 32 sig'.r ++ toBe 32 sig'.s
        ∧ bytes.length = 64 ∧ v.toNat = 2 * recid'.isXReduced.toNat + recid'.isYOdd.toNat
        ∧ w.toNat = v.toNat + 27
        ∧ signer.signPrehashToHexWithFormat hash .raw
          = .ok (String.ofList (hexEncode (bytes ++ [v])))
        ∧ signer.signPrehashToHexWithFormat hash .evm
          = .ok (String.ofList (hexEncode (bytes ++ [w]))) := by
  have hpre := signPrehash_eq hsign
  have hhex : ∀ {sig' recid'}, signer.signPrehash hash = .ok (sig', recid') → ∀ f,
      signer.signPrehashToHexWithFormat hash f
        = .ok (String.ofList (hexEncode (sig'.toBytes ++ [f.convertV recid'.toByte]))) := by
    intro sig' recid' h f
    simp [Signer.signPrehashToHexWithFormat, h, Except.bind, bind, pure, Except.pure]
  by_cases hhigh : sig.isHigh = true
  · rw [if_pos hhigh] at hpre
    have hlt := isHigh_iff.1 hhigh
    refine ⟨_, _, hpre, ?_, rfl, C.recover_neg hs.le hQ, fun hlow => absurd hlow (by omega),
      _, _, _, rfl, length_toBytes _, toNat_toByte _, toNat_convertV_evm _, hhex hpre .raw,
      hhex hpre .evm⟩
    show secp256k1Order - sig.s ≤ secp256k1Order / 2
    have hodd : secp256k1Order = 2 * (secp256k1Order / 2) + 1 := by decide
    omega
  · rw [if_neg hhigh] at hpre
    exact ⟨sig, recid, hpre, not_lt.1 fun h => hhigh (isHigh_iff.2 h), rfl, hQ,
      fun _ => ⟨rfl, rfl⟩, _, _, _, rfl, length_toBytes _, toNat_toByte _, toNat_convertV_evm _,
      hhex hpre .raw, hhex hpre .evm⟩

/-! ## A high signature -/

section Sample

/-- Negation modulo an odd number flips parity. -/
theorem parity_sub {n m : ℕ} (hodd : n % 2 = 1) (hm : m ≤ n) :
    ((n - m) % 2 == 0) = !(m % 2 == 0) := by
  rcases Nat.mod_two_eq_zero_or_one m with h | h
  · simp [h, show (n - m) % 2 = 1 by omega]
  · simp [h, show (n - m) % 2 = 0 by omega]

variable {n : ℕ} [NeZero n]

/-- The lesser of a number and its negation. -/
def halfVal (P : ZMod n) : ℕ := min P.val (n - P.val)

theorem halfVal_neg (P : ZMod n) : halfVal (-P) = halfVal P := by
  have hlt := ZMod.val_lt P
  unfold halfVal
  rw [ZMod.neg_val]
  split_ifs with h
  · simp [h]
  · omega

/-- The point whose lesser form is `m`, of the parity asked for. -/
def pointOf (m : ℕ) (odd : Bool) : ZMod n := if (m % 2 == 0) = odd then m else -m

theorem pointOf_spec (hodd : n % 2 = 1) {m : ℕ} (hm : 1 ≤ m ∧ m ≤ n / 2) (odd : Bool)
    (P : ZMod n) :
    pointOf m odd = P ↔ P ≠ 0 ∧ halfVal P = m ∧ (P.val % 2 == 0) = odd := by
  have hlt := ZMod.val_lt P
  have hval : (m : ZMod n).val = m := ZMod.val_cast_of_lt (by omega)
  have hne : (m : ZMod n) ≠ 0 := fun h => by
    rw [h, ZMod.val_zero] at hval
    omega
  have hneg : (-(m : ZMod n)).val = n - m := by
    rw [ZMod.neg_val, if_neg hne, hval]
  constructor
  · rintro rfl
    unfold pointOf halfVal
    split_ifs with h
    · rw [hval]
      exact ⟨hne, by omega, h⟩
    · rw [hneg]
      refine ⟨neg_ne_zero.2 hne, by omega, ?_⟩
      rw [parity_sub hodd (by omega)]
      revert h
      cases odd <;> cases (m % 2 == 0) <;> simp
  · rintro ⟨hP, hhalf, hpar⟩
    have hpos : P.val ≠ 0 := by rwa [ne_eq, ZMod.val_eq_zero]
    unfold halfVal at hhalf
    apply ZMod.val_injective n
    unfold pointOf
    by_cases hle : P.val ≤ n - P.val
    · have hmv : m = P.val := by omega
      rw [if_pos (by rw [hmv, hpar]), hval, hmv]
    · have hmv : m = n - P.val := by omega
      have hflip : (m % 2 == 0) = !odd := by rw [hmv, parity_sub hodd hlt.le, hpar]
      rw [if_neg (by rw [hflip]; simp), hneg]
      omega

/-- The `x` of the secp256k1 generator. -/
def generatorX : ℕ := 0x79be667ef9dcbbac55a06295ce870b07029bfcdb2dce28d959f2815b16f81798

instance : NeZero secp256k1Order := ⟨by decide⟩

theorem val_neg_parity (P : ZMod secp256k1Order) (hP : P ≠ 0) :
    ((-P).val % 2 == 0) = !(P.val % 2 == 0) := by
  rw [ZMod.neg_val, if_neg hP, parity_sub (by decide) (ZMod.val_lt P).le]

/-- The group by its logarithms to the generator, with the generator's own `x` and parity. -/
def logCurve : CurveGroup secp256k1Order (ZMod secp256k1Order) where
  base := 1
  xCoord P := Equiv.swap 1 generatorX (halfVal P)
  yIsOdd P := P.val % 2 == 0
  decompress x odd :=
    if 1 ≤ Equiv.swap 1 generatorX x ∧ Equiv.swap 1 generatorX x ≤ secp256k1Order / 2
    then some (pointOf (Equiv.swap 1 generatorX x) odd) else none
  smul_order P := by rw [nsmul_eq_mul, ZMod.natCast_self, zero_mul]
  xCoord_neg P := by rw [halfVal_neg]
  yIsOdd_neg := val_neg_parity
  decompress_eq_some x odd P := by
    have hx : Equiv.swap 1 generatorX (halfVal P) = x ↔ halfVal P = Equiv.swap 1 generatorX x := by
      rw [Equiv.swap_apply_eq_iff]
    rw [hx]
    split_ifs with hm
    · rw [Option.some.injEq, pointOf_spec (by decide) hm]
    · simp only [false_iff]
      rintro ⟨hP, hhalf, -⟩
      have hlt := ZMod.val_lt P
      have hpos : P.val ≠ 0 := by rwa [ne_eq, ZMod.val_eq_zero]
      unfold halfVal at hhalf
      exact hm ⟨by omega, by omega⟩

/-- The key 1, which signs with the nonce 1 a hash whose signature is high. -/
def highSigner : Signer where
  signingKey _ := .ok (⟨generatorX, 2 ^ 252 + generatorX⟩, ⟨false, false⟩)

theorem recover_highSigner :
    logCurve.recover (2 ^ 252) generatorX (2 ^ 252 + generatorX) false false = some 1 := by
  have hone : (1 : ZMod secp256k1Order).val = 1 := ZMod.val_one'' (by decide)
  have hhalf : halfVal (1 : ZMod secp256k1Order) = 1 := by
    rw [halfVal, hone]
    decide
  have hR : logCurve.decompress generatorX false = some 1 := by
    refine (logCurve.decompress_eq_some _ _ _).2 ⟨?_, ?_, ?_⟩
    · rw [← ZMod.val_ne_zero, hone]
      omega
    · show Equiv.swap 1 generatorX (halfVal 1) = generatorX
      rw [hhalf, Equiv.swap_apply_left]
    · show ((1 : ZMod secp256k1Order).val % 2 == 0) = false
      rw [hone]
      rfl
  have hcop : Nat.Coprime generatorX secp256k1Order := by
    norm_num [generatorX, secp256k1Order]
  simp only [CurveGroup.recover, Bool.false_eq_true, if_false, hR, Option.map_some]
  congr 1
  rw [add_nsmul, show logCurve.base = 1 from rfl, add_sub_cancel_left, nsmul_eq_mul,
    nsmul_eq_mul, mul_one, ZMod.natCast_zmod_val, mul_comm, ZMod.coe_mul_inv_eq_one _ hcop]

theorem low_s_same_signer_high : ∃ sig' recid', highSigner.signPrehash (.ofNat 32 (2 ^ 252))
      = .ok (sig', recid')
    ∧ sig'.s ≤ secp256k1Order / 2 ∧ sig'.r = generatorX
    ∧ logCurve.recover (2 ^ 252) sig'.r sig'.s recid'.isYOdd recid'.isXReduced = some 1
    ∧ ∃ v : UInt8, v.toNat = recid'.isYOdd.toNat + 2 * recid'.isXReduced.toNat
      ∧ highSigner.signPrehashToHexWithFormat (.ofNat 32 (2 ^ 252)) .raw
        = .ok (String.ofList (hexEncode (toBe 32 generatorX ++ toBe 32 sig'.s ++ [v]))) := by
  obtain ⟨sig', recid', h, hlow, hr, hQ, -, hbytes⟩ := low_s_same_signer logCurve
    (show highSigner.signingKey (.ofNat 32 (2 ^ 252)) = _ from rfl) (by decide) recover_highSigner
  obtain ⟨bytes, v, w, heq, -, hv, -, hraw, -⟩ := hbytes
  have hr' : sig'.r = generatorX := hr
  rw [heq, hr'] at hraw
  refine ⟨sig', recid', h, hlow, hr', hQ, v, ?_, hraw⟩
  rw [hv, add_comm]

end Sample

end Teecryptor
