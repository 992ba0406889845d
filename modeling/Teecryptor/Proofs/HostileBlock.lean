import Teecryptor.Proofs.Decode
import Teecryptor.Proofs.Soundness

/-!
# Blocks an attacker chose

Every field of a block comes from ct-server. The checks before `unpack` are ordered so that each
one's arithmetic is safe by the ones before it: whatever the fields are, decoding a block ends in a
value or an error, `unpack` is only run on a structure of the key's own size, and a value is below
the cleartext space.
-/

namespace Teecryptor

open Rust Lwe

variable {T : Tfhe} {key : DirectDecryptKey} {block : BlockMirror} {p : PackedIntegers}

/-- A packed structure of exactly the key's coefficients: one more than its dimension, of 1 to 63
bits each, in as many words as these bits take. The bits are counted in a `usize`. -/
structure Checked (key : DirectDecryptKey) (p : PackedIntegers) : Prop where
  initialLen : p.initialLen = key.smallLweKey.length + 1
  one_le : 1 ≤ p.logModulus
  le : p.logModulus ≤ 63
  bits_lt : (key.smallLweKey.length + 1) * p.logModulus < 2 ^ 64
  words : p.packedCoeffs.length = ((key.smallLweKey.length + 1) * p.logModulus + 63) / 64

theorem checked_iff : Checked key p ↔ p.initialLen = key.smallLweKey.length + 1
    ∧ 1 ≤ p.logModulus ∧ p.logModulus ≤ 63
    ∧ (key.smallLweKey.length + 1) * p.logModulus < 2 ^ 64
    ∧ p.packedCoeffs.length = ((key.smallLweKey.length + 1) * p.logModulus + 63) / 64 :=
  ⟨fun h => ⟨h.initialLen, h.one_le, h.le, h.bits_lt, h.words⟩,
    fun h => ⟨h.1, h.2.1, h.2.2.1, h.2.2.2.1, h.2.2.2.2⟩⟩

instance (key : DirectDecryptKey) (p : PackedIntegers) : Decidable (Checked key p) :=
  decidable_of_iff _ checked_iff.symm

/-- Every coefficient's bits are inside the packed words. -/
theorem Checked.bits_le (h : Checked key p) {i : ℕ} (hi : i < p.initialLen) :
    (i + 1) * p.logModulus ≤ 64 * p.packedCoeffs.length := by
  have hle : (i + 1) * p.logModulus ≤ (key.smallLweKey.length + 1) * p.logModulus :=
    Nat.mul_le_mul_right _ (by rw [← h.initialLen]; omega)
  rw [h.words]
  omega

/-- The block passes every check, with the packed structure `p`. -/
structure Accepts (key : DirectDecryptKey) (block : BlockMirror) (p : PackedIntegers) : Prop where
  messageModulus : block.messageModulus = key.messageModulus
  carryModulus : block.carryModulus = key.carryModulus
  atomicPattern : block.atomicPattern = .standard .keyswitchBootstrap
  ciphertext : block.compressedModulusSwitchedLweCiphertext = .classic ⟨p, key.smallLweKey.length⟩
  checked : Checked key p

/-- The checks give the packed structure or an error, never a panic: the one addition among them
is made on the key's own length. -/
theorem checkBlock_cases (T : Tfhe) (key : DirectDecryptKey) (block : BlockMirror) :
    (∃ p, checkBlock T key block = .ok p ∧ Accepts key block p)
      ∨ ∃ e, checkBlock T key block = .error (.err e) ∧ ∀ p, ¬ Accepts key block p := by
  have hlen := key.len_lt
  unfold checkBlock
  by_cases hmod : block.messageModulus ≠ key.messageModulus
      ∨ block.carryModulus ≠ key.carryModulus
  · refine .inr ⟨.moduliMismatch, by simp [hmod, fail], fun p h => ?_⟩
    rcases hmod with hm | hm
    · exact hm h.messageModulus
    · exact hm h.carryModulus
  by_cases hpat : block.atomicPattern ≠ .standard .keyswitchBootstrap
  · exact .inr ⟨.wrongAtomicPattern, by simp [hmod, hpat, fail], fun p h => hpat h.atomicPattern⟩
  rcases hct : block.compressedModulusSwitchedLweCiphertext with ⟨⟨words, L, len⟩, dim⟩ | _
  swap
  · exact .inr ⟨_, by simp [hmod, hpat, fail]; rfl, fun p h => by simpa [hct] using h.ciphertext⟩
  -- from here on a check that fails is one of the packed structure
  have hnot : ∀ {P : Prop}, (Checked key ⟨words, L, len⟩ → dim = key.smallLweKey.length → P) → ¬ P →
      ∀ p, ¬ Accepts key block p := by
    intro P hP hn p h
    have hc := h.ciphertext
    rw [hct] at hc
    cases hc
    exact hn (hP h.checked rfl)
  by_cases hdim : dim = key.smallLweKey.length
  swap
  · exact .inr ⟨.dimensionMismatch dim key.smallLweKey.length, by simp [hmod, hpat, hdim, fail],
      hnot (fun _ hd => hd) hdim⟩
  by_cases hlog : 1 ≤ L ∧ L < 64
  swap
  · refine .inr ⟨_, by simp [hmod, hpat, hdim, hlog, fail]; rfl, hnot (fun hc _ => ?_) hlog⟩
    exact ⟨hc.one_le, Nat.lt_succ_of_le hc.le⟩
  have hfits : (T.build.fits 64 (key.smallLweKey.length + 1) : Exec DecryptError ℕ)
      = .ok (key.smallLweKey.length + 1) := fits_of_lt _ (by omega)
  by_cases hinit : len = key.smallLweKey.length + 1
  swap
  · exact .inr ⟨.packedLenMismatch, by simp [hmod, hpat, hdim, hlog, hfits, hinit, fail],
      hnot (fun hc _ => hc.initialLen) hinit⟩
  subst hdim hinit
  by_cases hbits : (key.smallLweKey.length + 1) * L < 2 ^ 64
  swap
  · have hmul : checkedMul (key.smallLweKey.length + 1) L = none := if_neg hbits
    exact .inr ⟨.packedLenMismatch, by simp [hmod, hpat, hlog, hfits, hmul, fail],
      hnot (fun hc _ => hc.bits_lt) hbits⟩
  have hmul : checkedMul (key.smallLweKey.length + 1) L = some ((key.smallLweKey.length + 1) * L) :=
    if_pos hbits
  by_cases hwords : words.length = ((key.smallLweKey.length + 1) * L + 63) / 64
  swap
  · exact .inr ⟨.packedLenMismatch, by simp [hmod, hpat, hlog, hfits, hmul, hwords, fail],
      hnot (fun hc _ => hc.words) hwords⟩
  refine .inl ⟨⟨words, L, key.smallLweKey.length + 1⟩, ?_, ?_⟩
  · simp only [hmod, hpat, hlog, hfits, hmul, hwords, ne_eq, not_true_eq_false, and_self, if_false,
      ok_bind]
    rfl
  · simp only [not_or, not_not] at hmod
    exact ⟨hmod.1, hmod.2, not_not.1 hpat, hct, rfl, hlog.1, Nat.le_of_lt_succ hlog.2, hbits,
      hwords⟩

/-- Moduli that are powers of two, of a cleartext space that fits a word. -/
structure DirectDecryptKey.Sized (key : DirectDecryptKey) : Prop where
  message : isPowerOfTwo key.messageModulus.toNat = true
  carry : isPowerOfTwo key.carryModulus.toNat = true
  space_lt : 2 * key.messageModulus.toNat * key.carryModulus.toNat < 2 ^ 64

theorem DirectDecryptKey.Sized.space_pos (hk : key.Sized) : 0 < key.space := by
  obtain ⟨m, hm⟩ := isPowerOfTwo_iff.1 hk.message
  obtain ⟨c, hc⟩ := isPowerOfTwo_iff.1 hk.carry
  rw [DirectDecryptKey.space, hm, hc]
  positivity

theorem nearest_lt {p : ℕ} (hp : 0 < p) (q x : ℕ) : nearest p q x < p := Nat.mod_lt _ hp

/-- `unpack` gives as many coefficients as a checked structure declares. -/
def Tfhe.Unpacks (T : Tfhe) (key : DirectDecryptKey) : Prop :=
  ∀ p, Checked key p → (T.unpack p).length = p.initialLen

/-- A block that passes the checks decodes to a value of the cleartext space. -/
theorem decodeBlock_of_accepts (hk : key.Sized) (hT : T.Unpacks key) (h : Accepts key block p)
    (hc : checkBlock T key block = .ok p) :
    ∃ mask body, T.unpack p = mask ++ [body] ∧ decodeBlock T key block
      = .ok (nearest key.space (2 ^ p.logModulus) (phase key p.logModulus mask body),
        key.messageModulus.toNat) := by
  have hne : T.unpack p ≠ [] := by
    rw [← List.length_pos_iff, hT p h.checked, h.checked.initialLen]
    omega
  have hsplit : T.unpack p = (T.unpack p).dropLast ++ [(T.unpack p).getLast hne] :=
    (List.dropLast_append_getLast hne).symm
  refine ⟨_, _, hsplit, ?_⟩
  rw [decodeBlock, hc, ok_bind]
  conv_lhs => rw [hsplit]
  exact decodeLwe_eq hk.space_pos hk.space_lt h.checked.one_le (Nat.lt_succ_of_le h.checked.le) _ _

/-- The checks come out the same in every build. -/
theorem checkBlock_build (B : Build) :
    checkBlock { T with build := B } key block = checkBlock T key block := by
  have hfits : ∀ B : Build, (B.fits 64 (key.smallLweKey.length + 1) : Exec DecryptError ℕ)
      = .ok (key.smallLweKey.length + 1) := fun B => fits_of_lt B (by have := key.len_lt; omega)
  unfold checkBlock
  rcases block.compressedModulusSwitchedLweCiphertext with ⟨q, dim⟩ | _
  · by_cases hdim : dim = key.smallLweKey.length
    · subst hdim
      simp only [hfits]
    · simp [hdim, fail]
  · rfl

/-- `unpack` where it may only be run on a checked structure. -/
def unpackChecked (T : Tfhe) (key : DirectDecryptKey) (p : PackedIntegers) :
    Exec DecryptError (List UInt64) :=
  if Checked key p then .ok (T.unpack p) else panic (.expect "unchecked structure unpacked")

/-- A key with power-of-two moduli decodes every block without a panic, and the same in a build
that checks for overflow and in one that wraps. It unpacks checked structures only, whose
coefficients lie inside their words, gives a value exactly for the blocks that pass every check,
and that value is below the cleartext space. -/
theorem decodeBlock_safe (T : Tfhe) (key : DirectDecryptKey) (hk : key.Sized)
    (hT : T.Unpacks key) (block : BlockMirror) :
    (∀ e, decodeBlock T key block ≠ .error (.panic e))
      ∧ (∀ B, decodeBlock { T with build := B } key block = decodeBlock T key block)
      ∧ decodeBlock T key block = (do
        let packed ← checkBlock T key block
        let coeffs ← unpackChecked T key packed
        decodeLwe T key packed.logModulus coeffs)
      ∧ (∀ p, Checked key p → p.initialLen = key.smallLweKey.length + 1
        ∧ ∀ i < p.initialLen, (i + 1) * p.logModulus ≤ 64 * p.packedCoeffs.length)
      ∧ ((∃ r, decodeBlock T key block = .ok r) ↔ ∃ p, Accepts key block p)
      ∧ ∀ m msgMod, decodeBlock T key block = .ok (m, msgMod) →
        m < 2 * key.messageModulus.toNat * key.carryModulus.toNat
          ∧ msgMod = key.messageModulus.toNat := by
  have hin : ∀ p, Checked key p → p.initialLen = key.smallLweKey.length + 1
      ∧ ∀ i < p.initialLen, (i + 1) * p.logModulus ≤ 64 * p.packedCoeffs.length :=
    fun p hp => ⟨hp.initialLen, fun i hi => hp.bits_le hi⟩
  rcases checkBlock_cases T key block with ⟨p, hc, ha⟩ | ⟨e, hc, hn⟩
  · obtain ⟨mask, body, hun, hd⟩ := decodeBlock_of_accepts hk hT ha hc
    refine ⟨by simp [hd], fun B => ?_, ?_, hin, ⟨fun _ => ⟨p, ha⟩, fun _ => ⟨_, hd⟩⟩, ?_⟩
    · have hcB : checkBlock { T with build := B } key block = .ok p := by rw [checkBlock_build, hc]
      obtain ⟨mask', body', hun', hdB⟩ :=
        decodeBlock_of_accepts (T := { T with build := B }) hk hT ha hcB
      obtain ⟨rfl, rfl⟩ : mask = mask' ∧ body = body' := by
        simpa using hun.symm.trans hun'
      rw [hdB, hd]
    · rw [decodeBlock, hc, ok_bind, ok_bind, unpackChecked, if_pos ha.checked, ok_bind]
    · intro m msgMod h
      rw [hd] at h
      cases h
      exact ⟨nearest_lt hk.space_pos _ _, rfl⟩
  · have hd : decodeBlock T key block = .error (.err e) := by rw [decodeBlock, hc, error_bind]
    refine ⟨by simp [hd], fun B => ?_, ?_, hin, ⟨?_, ?_⟩, ?_⟩
    · rw [hd, decodeBlock, checkBlock_build, hc, error_bind]
    · rw [hd, hc, error_bind]
    · rintro ⟨r, h⟩
      rw [hd] at h
      cases h
    · rintro ⟨p, h⟩
      exact absurd h (hn p)
    · intro m msgMod h
      rw [hd] at h
      cases h

theorem unpacks_readsAs (radix : GenericMirror) (key : DirectDecryptKey) :
    (readsAs radix).Unpacks key := fun p _ => by
  show (unpackWords p).length = p.initialLen
  simp [unpackWords, unpack]

/-- A block of the key's own size decodes, and one that declares a length of `2 ^ 32` is refused
before anything of that length is reserved. -/
theorem decodeBlock_safe_inflated :
    (∃ r, decodeBlock (readsAs twoBitRadix) twoBitKey
      (encryptBlock twoBitKey 10 [1000, 3, 77] (-16) 7) = .ok r ∧ r.1 < 2 * 4 * 4)
    ∧ ¬ ∃ r, decodeBlock (readsAs twoBitRadix) twoBitKey
      ⟨.classic ⟨⟨[0], 10, 2 ^ 32⟩, 3⟩, 4, 4, .standard .keyswitchBootstrap⟩ = .ok r := by
  have hk : twoBitKey.Sized := ⟨by decide, by decide, by decide⟩
  have hT := unpacks_readsAs twoBitRadix twoBitKey
  refine ⟨?_, ?_⟩
  · obtain ⟨-, -, -, -, hok, hlt⟩ := decodeBlock_safe _ _ hk hT
      (encryptBlock twoBitKey 10 [1000, 3, 77] (-16) 7)
    obtain ⟨r, hr⟩ := hok.2 ⟨_, rfl, rfl, rfl, rfl, by decide⟩
    exact ⟨r, hr, (hlt r.1 r.2 hr).1⟩
  · obtain ⟨-, -, -, -, hok, -⟩ := decodeBlock_safe (readsAs twoBitRadix) twoBitKey hk hT
      ⟨.classic ⟨⟨[0], 10, 2 ^ 32⟩, 3⟩, 4, 4, .standard .keyswitchBootstrap⟩
    rw [hok]
    rintro ⟨p, h⟩
    have hp := h.ciphertext
    have hlen := h.checked.initialLen
    cases hp
    simp [twoBitKey] at hlen

end Teecryptor
