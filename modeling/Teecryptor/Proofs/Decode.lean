import Teecryptor.DirectDecrypt
import Teecryptor.Lib.Lwe

/-!
# Direct decryption inverts the compressed encoding

A block that encrypts a message under the small key, with a noise below half a level, decodes to
the message. From there the digits of a radix ciphertext come out as they went in, and the value
is the number they spell.
-/

namespace Teecryptor

open Rust Lwe

/-- The moduli of a key whose blocks carry two digits: powers of two, a carry at least as large as
the message, and a cleartext space that fits a word. -/
structure DirectDecryptKey.Pairs (key : DirectDecryptKey) : Prop where
  message : isPowerOfTwo key.messageModulus.toNat = true
  two_le : 2 ≤ key.messageModulus.toNat
  carry : isPowerOfTwo key.carryModulus.toNat = true
  le_carry : key.messageModulus.toNat ≤ key.carryModulus.toNat
  space_lt : 2 * key.messageModulus.toNat * key.carryModulus.toNat < 2 ^ 64

/-- The levels of the cleartext space, the padding bit's included. -/
def DirectDecryptKey.space (key : DirectDecryptKey) : ℕ :=
  2 * key.messageModulus.toNat * key.carryModulus.toNat

/-- The bits of a digit. -/
def DirectDecryptKey.bits (key : DirectDecryptKey) : ℕ := key.messageModulus.toNat.log2

/-- A block of the key's moduli, in the order of operations the engine stores, whose coefficients
of `L` bits are a mask and the body that hides `m` under it with some noise. The packed bits are
counted in a `usize`. -/
structure Encrypts (T : Tfhe) (key : DirectDecryptKey) (L m : ℕ) (block : BlockMirror) : Prop where
  messageModulus : block.messageModulus = key.messageModulus
  carryModulus : block.carryModulus = key.carryModulus
  atomicPattern : block.atomicPattern = .standard .keyswitchBootstrap
  coeffs : ∃ (words mask : List UInt64) (body : UInt64) (e : ℤ),
    block.compressedModulusSwitchedLweCiphertext =
      .classic ⟨⟨words, L, key.smallLweKey.length + 1⟩, key.smallLweKey.length⟩ ∧
    (key.smallLweKey.length + 1) * L < 2 ^ 64 ∧
    words.length = ((key.smallLweKey.length + 1) * L + 63) / 64 ∧
    T.unpack ⟨words, L, key.smallLweKey.length + 1⟩ = mask ++ [body] ∧
    mask.length = key.smallLweKey.length ∧ (∀ a ∈ mask, a.toNat < 2 ^ L) ∧
    Noise key.space (2 ^ L) e ∧
    (body.toNat : ℤ) =
      (inner mask key.smallLweKey + m * (2 ^ L / key.space : ℕ) + e) % (2 ^ L : ℕ)

variable {T : Tfhe} {key : DirectDecryptKey} {L m : ℕ} {block : BlockMirror}

namespace DirectDecryptKey.Pairs

theorem message_eq (h : key.Pairs) : key.messageModulus.toNat = 2 ^ key.bits := by
  obtain ⟨b, hb⟩ := isPowerOfTwo_iff.1 h.message
  rw [bits, hb, Nat.log2_two_pow]

/-- Two digits and the padding bit in a word leave 31 bits for a digit. -/
theorem bits_lt (h : key.Pairs) : key.bits < 32 := by
  by_contra hb
  have hle : 2 ^ 32 ≤ key.messageModulus.toNat := by
    rw [h.message_eq]
    exact Nat.pow_le_pow_right (by omega) (by omega)
  have hc := hle.trans h.le_carry
  have : 2 ^ 32 * 2 ^ 32 ≤ key.messageModulus.toNat * key.carryModulus.toNat :=
    Nat.mul_le_mul hle hc
  have := h.space_lt
  rw [mul_assoc] at this
  omega

theorem pair_lt_space (h : key.Pairs) {lo hi : ℕ} (hlo : lo < key.messageModulus.toNat)
    (hhi : hi < key.messageModulus.toNat) : lo + key.messageModulus.toNat * hi < key.space := by
  have hmul : key.messageModulus.toNat * (hi + 1) ≤
      key.messageModulus.toNat * key.carryModulus.toNat :=
    Nat.mul_le_mul_left _ (by have := h.le_carry; omega)
  have : key.space = 2 * (key.messageModulus.toNat * key.carryModulus.toNat) := mul_assoc _ _ _
  rw [mul_add, mul_one] at hmul
  omega

end DirectDecryptKey.Pairs

/-! ## One block -/

/-- What is left of the body without the mask, on `L` bits. -/
def phase (key : DirectDecryptKey) (L : ℕ) (mask : List UInt64) (body : UInt64) : ℕ :=
  (body - dot mask key.smallLweKey).toNat % 2 ^ L

/-- Only the size of the cleartext space can overflow in the rounding. -/
theorem decodeLwe_of_space {twice s : ℕ}
    (htwice : (T.build.fits 64 (2 * key.messageModulus.toNat) : Exec DecryptError ℕ) = .ok twice)
    (hspace : (T.build.fits 64 (twice * key.carryModulus.toNat) : Exec DecryptError ℕ) = .ok s)
    (hs : 0 < s) (hs' : s < 2 ^ 64) (hL : 1 ≤ L) (hL' : L < 64) (mask : List UInt64)
    (body : UInt64) :
    decodeLwe T key L (mask ++ [body]) =
      .ok (nearest s (2 ^ L) (phase key L mask body), key.messageModulus.toNat) := by
  have hpow : 2 ^ L < 2 ^ 64 := Nat.pow_lt_pow_right (by omega) hL'
  have hhalf : 2 ^ (L - 1) ≤ 2 ^ L := Nat.pow_le_pow_right (by omega) (by omega)
  have hphase : phase key L mask body < 2 ^ L := Nat.mod_lt _ (by positivity)
  have hscaled : phase key L mask body * s ≤ 2 ^ 63 * 2 ^ 64 := by
    have : 2 ^ L ≤ 2 ^ 63 := Nat.pow_le_pow_right (by omega) (by omega)
    exact Nat.mul_le_mul (by omega) (by omega)
  have hsum : phase key L mask body * s + 2 ^ (L - 1) < 2 ^ L * (s + 1) := by
    have : phase key L mask body * s ≤ 2 ^ L * s := Nat.mul_le_mul_right _ hphase.le
    have : 2 ^ (L - 1) < 2 ^ L := Nat.pow_lt_pow_right (by omega) (by omega)
    rw [mul_add, mul_one]
    omega
  have hlevel : (phase key L mask body * s + 2 ^ (L - 1)) / 2 ^ L < 2 ^ 64 := by
    have := Nat.div_lt_of_lt_mul hsum
    omega
  have hdec : ((body - dot mask key.smallLweKey) &&& UInt64.ofNat (2 ^ L - 1)).toNat
      = phase key L mask body := toNat_and_mask hL' _
  have hhalf' : 2 ^ L / 2 = 2 ^ (L - 1) := by
    rw [← Nat.pow_pred_mul (show 0 < L by omega)]
    exact Nat.mul_div_cancel _ (by omega)
  unfold decodeLwe
  simp only [List.getLast?_append, List.getLast?_singleton, Option.some_or, List.dropLast_concat]
  rw [shl_of_lt _ hL' (by rwa [Nat.one_shiftLeft]), Nat.one_shiftLeft, ok_bind,
    sub_of_le _ Nat.one_le_two_pow, ok_bind, hdec, htwice, ok_bind, hspace, ok_bind,
    fits_of_lt _ (by omega), ok_bind, sub_of_le _ hL, ok_bind,
    shl_of_lt _ (by omega) (by rw [Nat.one_shiftLeft]; omega), Nat.one_shiftLeft, ok_bind,
    fits_of_lt _ (by omega), ok_bind, shr_of_lt _ (by omega), ok_bind, Nat.shiftRight_eq_div_pow,
    Nat.mod_eq_of_lt hlevel, rem_of_pos hs, ok_bind, nearest, hhalf']
  rfl

/-- Nothing overflows in the rounding when the cleartext space fits a word. -/
theorem decodeLwe_eq (hs : 0 < key.space) (hs' : key.space < 2 ^ 64) (hL : 1 ≤ L) (hL' : L < 64)
    (mask : List UInt64) (body : UInt64) :
    decodeLwe T key L (mask ++ [body]) =
      .ok (nearest key.space (2 ^ L) (phase key L mask body), key.messageModulus.toNat) := by
  have hc : 0 < key.carryModulus.toNat := Nat.pos_of_mul_pos_left hs
  have htwice : 2 * key.messageModulus.toNat ≤ key.space := Nat.le_mul_of_pos_right _ hc
  exact decodeLwe_of_space (fits_of_lt _ (by omega)) (fits_of_lt _ hs') hs hs' hL hL' mask body

/-- The wrapping dot product only matters modulo `2 ^ L`, where it is the exact one. -/
theorem phase_modEq (hL : L < 64) {mask : List UInt64} {body : UInt64} {e : ℤ} {Δ : ℕ}
    (h : (body.toNat : ℤ) = (inner mask key.smallLweKey + m * Δ + e) % (2 ^ L : ℕ)) :
    (phase key L mask body : ℤ) ≡ m * Δ + e [ZMOD (2 ^ L : ℕ)] := by
  rw [← ZMod.intCast_eq_intCast_iff]
  have hbody : word L body = ((inner mask key.smallLweKey + m * Δ + e : ℤ) : ZMod (2 ^ L)) := by
    rw [word, ← Int.cast_natCast, h, ZMod.intCast_mod]
  have hphase : ((phase key L mask body : ℤ) : ZMod (2 ^ L))
      = word L (body - dot mask key.smallLweKey) := by
    rw [phase, word, Int.cast_natCast, ZMod.natCast_mod]
  rw [hphase, word_sub hL.le, dot, word_dot hL.le, hbody]
  push_cast
  ring

theorem checkBlock_classic {words : List UInt64}
    (hm : block.messageModulus = key.messageModulus) (hc : block.carryModulus = key.carryModulus)
    (hp : block.atomicPattern = .standard .keyswitchBootstrap)
    (hct : block.compressedModulusSwitchedLweCiphertext =
      .classic ⟨⟨words, L, key.smallLweKey.length + 1⟩, key.smallLweKey.length⟩)
    (hL : 1 ≤ L) (hL' : L < 64) (hbits : (key.smallLweKey.length + 1) * L < 2 ^ 64)
    (hlen : words.length = ((key.smallLweKey.length + 1) * L + 63) / 64) :
    checkBlock T key block = .ok ⟨words, L, key.smallLweKey.length + 1⟩ := by
  have hfits : key.smallLweKey.length + 1 < 2 ^ 64 := by
    have := key.len_lt
    omega
  unfold checkBlock
  simp only [hm, hc, hp, hct, ne_eq, not_true_eq_false, or_self, if_false, hL, hL', and_self,
    fits_of_lt _ hfits, ok_bind, checkedMul, if_pos hbits, hlen]
  rfl

theorem checkBlock_ok (h : Encrypts T key L m block) (hL : 1 ≤ L) (hL' : L < 64) :
    ∃ packed, checkBlock T key block = .ok packed ∧ packed.logModulus = L ∧
      ∃ (mask : List UInt64) (body : UInt64) (e : ℤ), T.unpack packed = mask ++ [body] ∧
        Noise key.space (2 ^ L) e ∧ (body.toNat : ℤ) =
          (inner mask key.smallLweKey + m * (2 ^ L / key.space : ℕ) + e) % (2 ^ L : ℕ) := by
  obtain ⟨words, mask, body, e, hct, hbits, hlen, hun, -, -, he, hbody⟩ := h.coeffs
  have hcheck := checkBlock_classic (T := T) h.messageModulus h.carryModulus h.atomicPattern hct
    hL hL' hbits hlen
  exact ⟨⟨words, L, key.smallLweKey.length + 1⟩, hcheck, rfl, mask, body, e, hun, he, hbody⟩

theorem decodeBlock_eq (hk : key.Pairs) (hL : 1 ≤ L) (hL' : L < 64) (hdvd : key.space ∣ 2 ^ L)
    (hm : m < key.space) (h : Encrypts T key L m block) :
    decodeBlock T key block = .ok (m, key.messageModulus.toNat) := by
  obtain ⟨packed, hcheck, rfl, mask, body, e, hun, he, hbody⟩ := checkBlock_ok h hL hL'
  have heven : 2 ∣ 2 ^ packed.logModulus := dvd_pow_self 2 (by omega)
  have hnear : nearest key.space (2 ^ packed.logModulus) (phase key packed.logModulus mask body)
      = m := by
    have hmod := phase_modEq hL' hbody
    exact nearest_eq hdvd (by positivity) heven hm he (by exact_mod_cast hmod)
  rw [decodeBlock, hcheck, ok_bind, hun, decodeLwe_eq (by omega) hk.space_lt hL hL', hnear]

/-! ## The digits -/

/-- Blocks that encrypt the pairs of a list of digits, and what is left of it. -/
def Blocks (T : Tfhe) (key : DirectDecryptKey) (L : ℕ) (ds : List ℕ) (radix : GenericMirror) :
    Prop :=
  List.Forall₂ (fun p block => Encrypts T key L (p.1 + key.messageModulus.toNat * p.2) block)
    (pairs ds).1 radix.pairedBlocks ∧
  Option.Rel (fun d block => Encrypts T key L d block) (pairs ds).2 radix.lastBlock

section radix
variable (hk : key.Pairs) (hL : 1 ≤ L) (hL' : L < 64) (hdvd : key.space ∣ 2 ^ L)
include hk hL hL' hdvd

theorem decodePair_eq {lo hi : ℕ} (hlo : lo < key.messageModulus.toNat)
    (hhi : hi < key.messageModulus.toNat)
    (h : Encrypts T key L (lo + key.messageModulus.toNat * hi) block) :
    decodePair T key block = .ok [lo, hi] := by
  have hpos : 0 < key.messageModulus.toNat := by omega
  rw [decodePair, decodeBlock_eq hk hL hL' hdvd (hk.pair_lt_space hlo hhi) h, ok_bind]
  simp only [rem_of_pos hpos, div_of_pos hpos, ok_bind]
  rw [Nat.add_mul_mod_self_left, Nat.mod_eq_of_lt hlo, Nat.add_mul_div_left _ _ hpos,
    Nat.div_eq_of_lt hlo, zero_add, Nat.mod_eq_of_lt hhi]
  rfl

theorem decodeLast_eq {d : ℕ} (hd : d < key.messageModulus.toNat) (h : Encrypts T key L d block) :
    decodeLast T key block = .ok [d] := by
  have hpos : 0 < key.messageModulus.toNat := by omega
  have hspace : d < key.space := by
    have := hk.pair_lt_space hd hpos
    omega
  rw [decodeLast, decodeBlock_eq hk hL hL' hdvd hspace h, ok_bind]
  simp only [rem_of_pos hpos, ok_bind, Nat.mod_eq_of_lt hd]
  rfl

theorem decodePairs_eq {ps : List (ℕ × ℕ)} {blocks : List BlockMirror}
    (hps : ∀ p ∈ ps, p.1 < key.messageModulus.toNat ∧ p.2 < key.messageModulus.toNat)
    (h : List.Forall₂ (fun p block =>
      Encrypts T key L (p.1 + key.messageModulus.toNat * p.2) block) ps blocks) :
    decodePairs T key blocks = .ok (ps.flatMap fun p => [p.1, p.2]) := by
  induction h with
  | nil => rfl
  | @cons p block ps blocks hp _ ih =>
    have hlt := hps p List.mem_cons_self
    rw [decodePairs, decodePair_eq hk hL hL' hdvd hlt.1 hlt.2 hp, ok_bind,
      ih fun p hp => hps p (List.mem_cons_of_mem _ hp), ok_bind, List.flatMap_cons]
    rfl

/-- The digits the blocks decode to, in order, are the ones they encrypt. -/
theorem decodeDigits_eq {ds : List ℕ} {radix : GenericMirror}
    (hds : ∀ d ∈ ds, d < key.messageModulus.toNat) (h : Blocks T key L ds radix) :
    decodeDigits T key radix = .ok ds := by
  have hpaired := decodePairs_eq hk hL hL' hdvd
    (fun p hp => ⟨hds _ (fst_mem_of_pairs hp), hds _ (snd_mem_of_pairs hp)⟩) h.1
  have hflat := flatMap_pairs ds
  have hlast := h.2
  rw [decodeDigits, hpaired, ok_bind]
  generalize radix.lastBlock = last at hlast ⊢
  cases hd : (pairs ds).2 with
  | none =>
    rw [hd] at hlast hflat
    cases hlast
    rw [Option.toList_none, List.append_nil] at hflat
    rw [hflat]
    rfl
  | some d =>
    rw [hd] at hlast hflat
    cases hlast with
    | some hb =>
      simp only [decodeLast_eq hk hL hL' hdvd (hds d (mem_of_pairs hd)) hb, ok_bind]
      rw [← Option.toList_some, hflat]
      rfl

end radix

/-- Digits over the bits of `v` so far. -/
theorem orDigits_eq {b : ℕ} : ∀ {ds : List ℕ} {i v : ℕ}, (∀ d ∈ ds, d < 2 ^ b) →
    v < 2 ^ (b * i) → b * (i + ds.length) ≤ 256 →
    orDigits T b i ds (BitVec.ofNat 256 v) =
      .ok (BitVec.ofNat 256 (v + (2 ^ b) ^ i * Nat.ofDigits (2 ^ b) ds))
  | [], i, v, _, _, _ => by
    rw [orDigits, Nat.ofDigits_nil, mul_zero, add_zero]
    rfl
  | d :: ds, i, v, hds, hv, hlen => by
    have hd : d < 2 ^ b := hds d List.mem_cons_self
    rw [List.length_cons, show i + (ds.length + 1) = (i + 1) + ds.length by omega] at hlen
    have hi : b * (i + 1) ≤ 256 := by
      have : b * (i + 1) ≤ b * (i + 1 + ds.length) := Nat.mul_le_mul_left _ (by omega)
      omega
    have hbi : b * i ≤ 256 := by
      rw [mul_add] at hi
      omega
    have hnext : v + (2 ^ b) ^ i * d < 2 ^ (b * (i + 1)) := by
      have : (2 ^ b) ^ i * d + (2 ^ b) ^ i ≤ (2 ^ b) ^ i * 2 ^ b := by
        rw [← Nat.mul_succ]
        exact Nat.mul_le_mul_left _ hd
      rw [pow_mul] at hv ⊢
      rw [pow_succ]
      omega
    have hor : (BitVec.ofNat 256 v ||| BitVec.ofNat 256 d <<< (b * i))
        = BitVec.ofNat 256 (v + (2 ^ b) ^ i * d) := by
      apply BitVec.eq_of_toNat_eq
      rw [BitVec.toNat_or, BitVec.toNat_shiftLeft, BitVec.toNat_ofNat, BitVec.toNat_ofNat,
        BitVec.toNat_ofNat, ← ofDigits_or hv, Nat.or_mod_two_pow]
      congr 1
      rw [Nat.shiftLeft_eq, Nat.shiftLeft_eq, Nat.mod_mul_mod]
    rw [orDigits, fits_of_lt _ (by omega), ok_bind, hor,
      orDigits_eq (fun x hx => hds x (List.mem_cons_of_mem _ hx)) hnext hlen, Nat.ofDigits_cons]
    congr 2
    ring

/-! ## Encrypting -/

/-- Coefficients the way tfhe packs them, their bits one after the other in words of 64. -/
def unpackWords (p : PackedIntegers) : List UInt64 :=
  (unpack p.logModulus p.initialLen (p.packedCoeffs.map UInt64.toNat)).map UInt64.ofNat

/-- The body that hides `m` under a mask. -/
def bodyOf (key : DirectDecryptKey) (L : ℕ) (mask : List UInt64) (e : ℤ) (m : ℕ) : ℕ :=
  ((inner mask key.smallLweKey + m * (2 ^ L / key.space : ℕ) + e) % (2 ^ L : ℕ)).toNat

def encryptBlock (key : DirectDecryptKey) (L : ℕ) (mask : List UInt64) (e : ℤ) (m : ℕ) :
    BlockMirror where
  compressedModulusSwitchedLweCiphertext := .classic
    ⟨⟨(pack L (mask.map UInt64.toNat ++ [bodyOf key L mask e m])).map UInt64.ofNat, L,
      key.smallLweKey.length + 1⟩, key.smallLweKey.length⟩
  messageModulus := key.messageModulus
  carryModulus := key.carryModulus
  atomicPattern := .standard .keyswitchBootstrap

theorem bodyOf_lt (mask : List UInt64) (e : ℤ) : bodyOf key L mask e m < 2 ^ L := by
  have := Int.emod_lt_of_pos
    (inner mask key.smallLweKey + m * (2 ^ L / key.space : ℕ) + e) (b := (2 ^ L : ℕ)) (by positivity)
  unfold bodyOf
  omega

theorem toNat_bodyOf (hL : L < 64) (mask : List UInt64) (e : ℤ) :
    ((UInt64.ofNat (bodyOf key L mask e m)).toNat : ℤ) =
      (inner mask key.smallLweKey + m * (2 ^ L / key.space : ℕ) + e) % (2 ^ L : ℕ) := by
  have hpow : 2 ^ L < 2 ^ 64 := Nat.pow_lt_pow_right (by omega) hL
  have hbody : bodyOf key L mask e m < 2 ^ L := bodyOf_lt mask e
  rw [UInt64.toNat_ofNat', Nat.mod_eq_of_lt (by omega), bodyOf,
    Int.toNat_of_nonneg (Int.emod_nonneg _ (by positivity))]

theorem map_toNat_ofNat {ds : List ℕ} (h : ∀ d ∈ ds, d < 2 ^ 64) :
    (ds.map UInt64.ofNat).map UInt64.toNat = ds := by
  rw [List.map_map]
  refine (List.map_congr_left fun d hd => ?_).trans (List.map_id ds)
  exact Nat.mod_eq_of_lt (h d hd)

/-- The packed words of a block are as many as its coefficients need, and give these back. -/
theorem unpackWords_pack {mask : List UInt64} {e : ℤ}
    (hlen : mask.length = key.smallLweKey.length) (hmask : ∀ a ∈ mask, a.toNat < 2 ^ L)
    {words : List UInt64}
    (hwords : words = (pack L (mask.map UInt64.toNat ++ [bodyOf key L mask e m])).map UInt64.ofNat) :
    words.length = ((key.smallLweKey.length + 1) * L + 63) / 64 ∧
      unpackWords ⟨words, L, key.smallLweKey.length + 1⟩
        = mask ++ [UInt64.ofNat (bodyOf key L mask e m)] := by
  have hbody : bodyOf key L mask e m < 2 ^ L := bodyOf_lt mask e
  have hcoeffs : ∀ d ∈ mask.map UInt64.toNat ++ [bodyOf key L mask e m], d < 2 ^ L := by
    intro d hd
    rcases List.mem_append.1 hd with hd | hd
    · obtain ⟨a, ha, rfl⟩ := List.mem_map.1 hd
      exact hmask a ha
    · rwa [List.mem_singleton.1 hd]
  have hn : (mask.map UInt64.toNat ++ [bodyOf key L mask e m]).length
      = key.smallLweKey.length + 1 := by simp [hlen]
  subst hwords
  refine ⟨?_, ?_⟩
  · rw [List.length_map, pack, length_digits, hn]
  · rw [unpackWords]
    dsimp only
    rw [map_toNat_ofNat fun d hd => lt_of_mem_pack hd, ← hn, unpack_pack hcoeffs,
      List.map_append, List.map_map]
    have hid : UInt64.ofNat ∘ UInt64.toNat = id := funext fun a => UInt64.ofNat_toNat
    rw [hid, List.map_id, List.map_singleton]

theorem encrypts_encryptBlock (hT : T.unpack = unpackWords) (hL : L < 64)
    (hbits : (key.smallLweKey.length + 1) * L < 2 ^ 64) {mask : List UInt64} {e : ℤ}
    (hlen : mask.length = key.smallLweKey.length) (hmask : ∀ a ∈ mask, a.toNat < 2 ^ L)
    (he : Noise key.space (2 ^ L) e) : Encrypts T key L m (encryptBlock key L mask e m) := by
  obtain ⟨hwords, hun⟩ := unpackWords_pack (m := m) (e := e) hlen hmask rfl
  exact ⟨rfl, rfl, rfl, _, mask, UInt64.ofNat (bodyOf key L mask e m), e, rfl, hbits, hwords,
    by rw [hT, hun], hlen, hmask, he, toNat_bodyOf hL mask e⟩

/-- Digits in pairs, each pair encrypted without a mask and without noise. -/
def encryptRadix (key : DirectDecryptKey) (L : ℕ) (ds : List ℕ) (h : ds.length < 2 ^ 57) :
    GenericMirror where
  pairedBlocks := (pairs ds).1.map fun p =>
    encryptBlock key L (List.replicate key.smallLweKey.length 0) 0
      (p.1 + key.messageModulus.toNat * p.2)
  lastBlock := (pairs ds).2.map
    (encryptBlock key L (List.replicate key.smallLweKey.length 0) 0)
  len_lt := by
    rw [List.length_map]
    exact (length_pairs_le ds).trans_lt h

/-! ## The whole ciphertext -/

/-- The largest number of bits a ciphertext of `maxBits` may have: whole digits. -/
def DirectDecryptKey.limit (key : DirectDecryptKey) (maxBits : ℕ) : ℕ :=
  (maxBits + key.bits - 1) / key.bits * key.bits

theorem DirectDecryptKey.limit_lt (key : DirectDecryptKey) (maxBits : ℕ) :
    key.limit maxBits < maxBits + key.bits + 1 := by
  have := Nat.div_mul_le_self (maxBits + key.bits - 1) key.bits
  unfold limit
  omega

theorem decodeRadix_of_guard (hM : isPowerOfTwo key.messageModulus.toNat = true)
    (hM' : 2 ≤ key.messageModulus.toNat) (radix : GenericMirror) (maxBits : ℕ) :
    decodeRadix T key radix maxBits = decodeDigits T key radix >>= fun ds =>
      joinDigits T (trailingZeros key.messageModulus.toNat) ds maxBits := by
  refine if_neg ?_
  rintro (hpow | hlt)
  · exact hpow hM
  · omega

section guard
variable (hM : isPowerOfTwo key.messageModulus.toNat = true)
  (hM' : 2 ≤ key.messageModulus.toNat)
include hM hM'

theorem message_eq_two_pow : key.messageModulus.toNat = 2 ^ key.bits ∧ 0 < key.bits ∧
    key.bits < 64 := by
  obtain ⟨b, hb⟩ := isPowerOfTwo_iff.1 hM
  have hbits : key.bits = b := by rw [DirectDecryptKey.bits, hb, Nat.log2_two_pow]
  have hlt : 2 ^ b < 2 ^ 64 := hb ▸ key.messageModulus.toNat_lt
  rw [hbits]
  refine ⟨hb, ?_, (Nat.pow_lt_pow_iff_right (by omega)).1 hlt⟩
  by_contra h0
  rw [Nat.eq_zero_of_not_pos h0] at hb
  omega

/-- The digits decide what a ciphertext decodes to. -/
theorem decodeRadix_of_digits {radix : GenericMirror} {ds : List ℕ}
    (hdigits : decodeDigits T key radix = .ok ds) (hne : ds ≠ [])
    (hmul : key.bits * ds.length < 2 ^ 64) (maxBits : ℕ) :
    decodeRadix T key radix maxBits =
      if key.bits * ds.length > key.limit maxBits then
        fail (.widthExceeded (key.bits * ds.length) maxBits)
      else orDigits T key.bits 0 ds 0 := by
  obtain ⟨hpow, hpos, hlt⟩ := message_eq_two_pow hM hM'
  have hzeros : trailingZeros key.messageModulus.toNat = key.bits := by
    rw [hpow, trailingZeros_two_pow hlt]
  rw [decodeRadix_of_guard hM hM', hdigits, hzeros, ok_bind, joinDigits, if_neg hne, checkedMul,
    if_pos hmul]
  simp only [nextMultipleOf, if_neg hpos.ne', ok_bind]
  rfl

theorem limit_le (ty : EncryptionType) : key.limit ty.bits ≤ 256 := by
  obtain ⟨-, -, hlt⟩ := message_eq_two_pow hM hM'
  have : ty.bits ≤ 160 := by cases ty <;> decide
  have := key.limit_lt ty.bits
  omega

/-- Digits within the checked width spell their number, which fits a word of 256 bits. -/
theorem orDigits_ofDigits {ty : EncryptionType} {ds : List ℕ}
    (hds : ∀ d ∈ ds, d < key.messageModulus.toNat) (hle : key.bits * ds.length ≤ key.limit ty.bits) :
    orDigits T key.bits 0 ds 0 =
      .ok (BitVec.ofNat 256 (Nat.ofDigits key.messageModulus.toNat ds)) ∧
    Nat.ofDigits key.messageModulus.toNat ds < 2 ^ 256 := by
  obtain ⟨hpow, -, -⟩ := message_eq_two_pow hM hM'
  have h256 : key.bits * ds.length ≤ 256 := hle.trans (limit_le hM hM' ty)
  rw [hpow] at hds ⊢
  refine ⟨?_, (ofDigits_lt hds).trans_le (Nat.pow_le_pow_right (by omega) h256)⟩
  have hor := orDigits_eq (T := T) (i := 0) (v := 0) hds (by positivity) (by rwa [zero_add])
  rwa [pow_zero, one_mul, zero_add] at hor

end guard

theorem decodeRadix_blocks (hk : key.Pairs) (hL : 1 ≤ L) (hL' : L < 64)
    (hdvd : key.space ∣ 2 ^ L) (maxBits : ℕ) {ds : List ℕ} (hne : ds ≠ [])
    (hds : ∀ d ∈ ds, d < key.messageModulus.toNat) {radix : GenericMirror}
    (h : Blocks T key L ds radix) :
    decodeRadix T key radix maxBits =
      if key.bits * ds.length > key.limit maxBits then
        fail (.widthExceeded (key.bits * ds.length) maxBits)
      else orDigits T key.bits 0 ds 0 := by
  have hlen : ds.length ≤ 2 ^ 58 := by
    have := h.1.length_eq
    have := radix.len_lt
    have := length_pairs ds
    omega
  -- a digit has at most 31 bits, so their number in bits is far from the end of a `usize`
  have hmul : key.bits * ds.length < 2 ^ 64 := by
    have : key.bits * ds.length ≤ 31 * 2 ^ 58 :=
      Nat.mul_le_mul (by have := hk.bits_lt; omega) hlen
    omega
  exact decodeRadix_of_digits hk.message hk.two_le (decodeDigits_eq hk hL hL' hdvd hds h) hne hmul
    maxBits

theorem decodeRadix_digits (hk : key.Pairs) (hL : 1 ≤ L) (hL' : L < 64)
    (hdvd : key.space ∣ 2 ^ L) {ty : EncryptionType} {ds : List ℕ} (hne : ds ≠ [])
    (hds : ∀ d ∈ ds, d < key.messageModulus.toNat) {radix : GenericMirror}
    (h : Blocks T key L ds radix) (hle : ds.length * key.bits ≤ key.limit ty.bits) :
    decodeRadix T key radix ty.bits =
      .ok (BitVec.ofNat 256 (Nat.ofDigits key.messageModulus.toNat ds)) ∧
    Nat.ofDigits key.messageModulus.toNat ds < 2 ^ 256 := by
  rw [mul_comm] at hle
  rw [decodeRadix_blocks hk hL hL' hdvd ty.bits hne hds h, if_neg (by omega)]
  exact orDigits_ofDigits hk.message hk.two_le hds hle

/-- Decoding gives back the number whose digits the blocks encrypt, and refuses more digits than
the type has. -/
theorem decodeRadix_encrypted (T : Tfhe) (key : DirectDecryptKey) (hk : key.Pairs) (L : ℕ)
    (hL : 1 ≤ L) (hL' : L < 64) (hdvd : key.space ∣ 2 ^ L) (ty : EncryptionType) (ds : List ℕ)
    (hne : ds ≠ []) (hds : ∀ d ∈ ds, d < key.messageModulus.toNat) (radix : GenericMirror)
    (h : Blocks T key L ds radix) :
    (ds.length * key.bits ≤ key.limit ty.bits →
      decodeRadix T key radix ty.bits =
        .ok (BitVec.ofNat 256 (Nat.ofDigits key.messageModulus.toNat ds)) ∧
      Nat.ofDigits key.messageModulus.toNat ds < 2 ^ 256) ∧
    (key.limit ty.bits < ds.length * key.bits →
      decodeRadix T key radix ty.bits =
        .error (.err (.widthExceeded (ds.length * key.bits) ty.bits))) := by
  refine ⟨fun hle => decodeRadix_digits hk hL hL' hdvd hne hds h hle, fun hlt => ?_⟩
  rw [mul_comm] at hlt
  rw [decodeRadix_blocks hk hL hL' hdvd ty.bits hne hds h, if_pos hlt, mul_comm]
  rfl

/-- tfhe reading back the ciphertext it is given. -/
def readsAs (radix : GenericMirror) : Tfhe where
  build := ⟨true⟩
  Ct := GenericMirror
  safeDeserialize := fun _ _ _ => .ok radix
  bincodeSerialize := fun _ => .ok []
  bincodeUint := fun _ => .ok (.modulusSwitched radix)
  bincodeBool := fun _ => .ok .seeded
  unpack := unpackWords

/-- Two-bit digits, and a key of three bits. -/
def twoBitKey : DirectDecryptKey := ⟨[1, 0, 1], 4, 4, by decide⟩

/-- The digits 3, 1, 2 on ten bits, under masks, with the noise at both ends of its window. -/
def twoBitRadix : GenericMirror where
  pairedBlocks := [encryptBlock twoBitKey 10 [1000, 3, 77] (-16) (3 + 4 * 1)]
  lastBlock := some (encryptBlock twoBitKey 10 [5, 1023, 512] 15 2)
  len_lt := by decide

theorem decodeRadix_encrypted_twoBit :
    decodeRadix (readsAs twoBitRadix) twoBitKey twoBitRadix 8 = .ok 39 := by
  have henc : Blocks (readsAs twoBitRadix) twoBitKey 10 [3, 1, 2] twoBitRadix := by
    refine ⟨.cons ?_ .nil, .some ?_⟩
    · exact encrypts_encryptBlock rfl (by decide) (by decide) rfl (by simp) (by decide)
    · exact encrypts_encryptBlock rfl (by decide) (by decide) rfl (by simp) (by decide)
  have hk : twoBitKey.Pairs := ⟨by decide, by decide, by decide, by decide, by decide⟩
  exact ((decodeRadix_encrypted (readsAs twoBitRadix) twoBitKey hk 10 (by decide) (by decide)
    (by decide) .u8 [3, 1, 2] (by decide) (by decide) twoBitRadix henc).1 (by decide)).1

end Teecryptor
