import Mathlib.Algebra.Group.Nat.Even
import Teecryptor.Proofs.HostileBlock

/-!
# The width of a decrypted value

The number of digits is checked against the declared type rounded up to whole digits, and what is
sealed is cut to the bytes of the type. The two agree when the bits of a digit divide those of the
type. Elsewhere the last digit decides: it may hold bits past the type unless a block of the key
never carries that much.
-/

namespace Teecryptor

open Rust Lwe Bytes

/-- A value the type can hold, whose bytes as the type has them are the whole of it. -/
def EncryptionType.Holds (ty : EncryptionType) (v : U256) : Prop :=
  v.toNat < 2 ^ ty.bits ∧ ofBe (ty.encode v) = v.toNat

instance (ty : EncryptionType) (v : U256) : Decidable (ty.Holds v) :=
  inferInstanceAs (Decidable (_ ∧ _))

theorem EncryptionType.holds_of_lt {ty : EncryptionType} {v : U256} (h : v.toNat < 2 ^ ty.bits) :
    ty.Holds v := by
  have hw : 2 ^ ty.bits ≤ 256 ^ ty.width := by cases ty <;> decide
  refine ⟨h, ?_⟩
  rw [encode_eq, ofBe_toBe, Nat.mod_eq_of_lt (h.trans_le hw)]

/-! ## The condition -/

variable {T : Tfhe} {key : DirectDecryptKey} {block : BlockMirror}

namespace DirectDecryptKey

/-- The levels of the cleartext space, as 64 bits hold their number. -/
def wrapped (key : DirectDecryptKey) : ℕ := key.space % 2 ^ 64

/-- The most digits the width check lets through. -/
def maxDigits (key : DirectDecryptKey) (ty : EncryptionType) : ℕ :=
  (ty.bits + key.bits - 1) / key.bits

/-- The last of `n` digits in the block it is read from: a block by itself where `n` is odd, the
high half of a pair where it is even. -/
def lastDigit (key : DirectDecryptKey) (n m : ℕ) : ℕ :=
  if Even n then m / key.messageModulus.toNat % key.messageModulus.toNat
  else m % key.messageModulus.toNat

/-- A level that some phase rounds to, at a modulus whose packed coefficients are counted in a
`usize`. -/
def Level (key : DirectDecryptKey) (m : ℕ) : Prop :=
  ∃ L x, 1 ≤ L ∧ L < 64 ∧ (key.smallLweKey.length + 1) * L < 2 ^ 64 ∧ x < 2 ^ L ∧
    m = nearest key.wrapped (2 ^ L) x

/-- The build computes the size of the cleartext space, and what it computes is not zero. -/
def HasSpace (B : Build) (key : DirectDecryptKey) : Prop :=
  (key.space < 2 ^ 64 ∨ B.overflowChecks = false) ∧ 0 < key.wrapped

instance (B : Build) (key : DirectDecryptKey) : Decidable (key.HasSpace B) :=
  inferInstanceAs (Decidable (_ ∧ _))

/-- The widths that keep a value within its type. Apart from the boolean and whole digits these
are the keys no block of which decodes, those whose last digit is the high half of a pair and has
no more levels than the type has bits left for, and keys of more than `2 ^ 58` coefficients whose
few moduli miss every level past the type. -/
def FitsWidth (B : Build) (key : DirectDecryptKey) (ty : EncryptionType) : Prop :=
  ty = .bool ∨ key.bits ∣ ty.bits ∨ ¬ key.HasSpace B ∨
  (Even (key.maxDigits ty) ∧ key.wrapped ≤ 2 ^ (key.bits + ty.bits % key.bits)) ∨
  (2 ^ 64 ≤ (key.smallLweKey.length + 1) * 63 ∧
    ∀ m, key.Level m → key.lastDigit (key.maxDigits ty) m < 2 ^ (ty.bits % key.bits))

end DirectDecryptKey

/-! ## What a decoded value is made of -/

/-- What the build computes for the size of the cleartext space. -/
theorem space_eq_ok {B : Build} {s : ℕ} :
    (∃ twice, (B.fits 64 (2 * key.messageModulus.toNat) : Exec DecryptError ℕ) = .ok twice ∧
      (B.fits 64 (twice * key.carryModulus.toNat) : Exec DecryptError ℕ) = .ok s) ∧ 0 < s ↔
    key.HasSpace B ∧ s = key.wrapped := by
  simp only [fits_eq_ok, DirectDecryptKey.HasSpace, DirectDecryptKey.wrapped,
    DirectDecryptKey.space]
  constructor
  · rintro ⟨⟨twice, ⟨hm, rfl⟩, hc, rfl⟩, hs⟩
    rw [Nat.mod_mul_mod] at hs ⊢
    refine ⟨⟨?_, hs⟩, rfl⟩
    rcases hm with hm | hm
    · rwa [Nat.mod_eq_of_lt hm] at hc
    · exact .inr hm
  · rintro ⟨⟨hspace, hs⟩, rfl⟩
    refine ⟨⟨_, ⟨?_, rfl⟩, ?_, (Nat.mod_mul_mod _ _ _).symm⟩, hs⟩
    · rcases hspace with hspace | hspace
      · have hc : 0 < key.carryModulus.toNat := by
          refine Nat.pos_of_ne_zero fun h0 => ?_
          rw [h0, mul_zero] at hs
          exact absurd hs (by decide)
        exact .inl ((Nat.le_mul_of_pos_right _ hc).trans_lt hspace)
      · exact .inr hspace
    · rcases hspace with hspace | hspace
      · exact .inl ((Nat.mul_le_mul_right _ (Nat.mod_le _ _)).trans_lt hspace)
      · exact .inr hspace

/-- A block that decodes does so to a level. -/
theorem decodeBlock_level {r : ℕ × ℕ} (h : decodeBlock T key block = .ok r) :
    key.HasSpace T.build ∧ key.Level r.1 ∧ r.2 = key.messageModulus.toNat := by
  obtain ⟨packed, hcheck, h⟩ := bind_eq_ok.1 h
  rcases checkBlock_cases T key block with ⟨p, hp, hacc⟩ | ⟨e, he, -⟩
  swap
  · rw [he] at hcheck
    cases hcheck
  obtain rfl : p = packed := Except.ok.inj (hp.symm.trans hcheck)
  have hL := hacc.checked.one_le
  have hL' : p.logModulus < 64 := Nat.lt_succ_of_le hacc.checked.le
  have hdecode := h
  unfold decodeLwe at h
  cases hlast : (T.unpack p).getLast? with
  | none =>
    rw [hlast] at h
    cases h
  | some body =>
    rw [hlast] at h
    obtain ⟨top, -, h⟩ := bind_eq_ok.1 h
    obtain ⟨modulusMask, -, h⟩ := bind_eq_ok.1 h
    obtain ⟨twice, htwice, h⟩ := bind_eq_ok.1 h
    obtain ⟨s, hspace, h⟩ := bind_eq_ok.1 h
    obtain ⟨scaled, -, h⟩ := bind_eq_ok.1 h
    obtain ⟨shift, -, h⟩ := bind_eq_ok.1 h
    obtain ⟨half, -, h⟩ := bind_eq_ok.1 h
    obtain ⟨sum, -, h⟩ := bind_eq_ok.1 h
    obtain ⟨level, -, h⟩ := bind_eq_ok.1 h
    obtain ⟨m, hm, -⟩ := bind_eq_ok.1 h
    obtain ⟨hpos, -⟩ := rem_eq_ok.1 hm
    obtain ⟨hbuild, hs⟩ := space_eq_ok.1 ⟨⟨twice, htwice, hspace⟩, hpos⟩
    have hsplit : T.unpack p = (T.unpack p).dropLast ++ [body] := by
      obtain ⟨mask, hmask⟩ := List.getLast?_eq_some_iff.1 hlast
      rw [hmask, List.dropLast_concat]
    have hlt : s < 2 ^ 64 := by
      rw [hs]
      exact Nat.mod_lt _ (by positivity)
    rw [hsplit, decodeLwe_of_space htwice hspace hpos hlt hL hL', hs] at hdecode
    cases hdecode
    exact ⟨hbuild, ⟨p.logModulus, _, hL, hL', hacc.checked.bits_lt, Nat.mod_lt _ (by positivity),
      rfl⟩, rfl⟩

theorem decodePair_eq_ok {ds : List ℕ} (h : decodePair T key block = .ok ds) :
    0 < key.messageModulus.toNat ∧ ∃ m, key.HasSpace T.build ∧ key.Level m ∧
      ds = [m % key.messageModulus.toNat,
        m / key.messageModulus.toNat % key.messageModulus.toNat] := by
  obtain ⟨⟨m, M⟩, hb, h⟩ := bind_eq_ok.1 h
  obtain ⟨hspace, hlevel, hM⟩ := decodeBlock_level hb
  obtain rfl : M = _ := hM
  obtain ⟨lo, hlo, h⟩ := bind_eq_ok.1 h
  obtain ⟨q, hq, h⟩ := bind_eq_ok.1 h
  obtain ⟨hi, hhi, h⟩ := bind_eq_ok.1 h
  obtain ⟨hpos, rfl⟩ := rem_eq_ok.1 hlo
  rw [div_of_pos hpos] at hq
  cases hq
  obtain ⟨-, rfl⟩ := rem_eq_ok.1 hhi
  cases h
  exact ⟨hpos, m, hspace, hlevel, rfl⟩

theorem decodeLast_eq_ok {ds : List ℕ} (h : decodeLast T key block = .ok ds) :
    0 < key.messageModulus.toNat ∧ ∃ m, key.HasSpace T.build ∧ key.Level m ∧
      ds = [m % key.messageModulus.toNat] := by
  obtain ⟨⟨m, M⟩, hb, h⟩ := bind_eq_ok.1 h
  obtain ⟨hspace, hlevel, hM⟩ := decodeBlock_level hb
  obtain rfl : M = _ := hM
  obtain ⟨lo, hlo, h⟩ := bind_eq_ok.1 h
  obtain ⟨hpos, rfl⟩ := rem_eq_ok.1 hlo
  cases h
  exact ⟨hpos, m, hspace, hlevel, rfl⟩

/-- Two digits a block, the last of them the high half of the last block's level. -/
theorem decodePairs_eq_ok : ∀ {blocks : List BlockMirror} {ds : List ℕ},
    decodePairs T key blocks = .ok ds →
    ds.length = 2 * blocks.length ∧ (∀ d ∈ ds, d < key.messageModulus.toNat) ∧
      (blocks ≠ [] → ∃ init m, key.HasSpace T.build ∧ key.Level m ∧
        ds = init ++ [m / key.messageModulus.toNat % key.messageModulus.toNat])
  | [], ds, h => by
    cases h
    simp
  | block :: blocks, ds, h => by
    obtain ⟨pair, hp, h⟩ := bind_eq_ok.1 h
    obtain ⟨rest, hr, h⟩ := bind_eq_ok.1 h
    cases h
    obtain ⟨hpos, m, hspace, hlevel, rfl⟩ := decodePair_eq_ok hp
    obtain ⟨hlen, hlt, hlast⟩ := decodePairs_eq_ok hr
    refine ⟨?_, ?_, fun _ => ?_⟩
    · rw [List.length_append, hlen, List.length_cons]
      simp only [List.length_cons, List.length_nil]
      omega
    · intro d hd
      rcases List.mem_append.1 hd with hd | hd
      · rcases List.mem_pair.1 hd with rfl | rfl <;> exact Nat.mod_lt _ hpos
      · exact hlt d hd
    · by_cases hnil : blocks = []
      · subst hnil
        rw [List.eq_nil_of_length_eq_zero hlen]
        exact ⟨[_], m, hspace, hlevel, rfl⟩
      · obtain ⟨init, m', hspace', hlevel', rfl⟩ := hlast hnil
        exact ⟨_ ++ init, m', hspace', hlevel', (List.append_assoc _ _ _).symm⟩

/-- The digits of a radix ciphertext, the last of them read from one level. -/
theorem decodeDigits_eq_ok {radix : GenericMirror} {ds : List ℕ}
    (h : decodeDigits T key radix = .ok ds) : (∀ d ∈ ds, d < key.messageModulus.toNat) ∧
      (ds ≠ [] → ∃ init m, key.HasSpace T.build ∧ key.Level m ∧
        ds = init ++ [key.lastDigit ds.length m]) := by
  obtain ⟨paired, hp, h⟩ := bind_eq_ok.1 h
  obtain ⟨hlen, hlt, hlast⟩ := decodePairs_eq_ok hp
  cases hb : radix.lastBlock with
  | none =>
    rw [hb] at h
    cases h
    refine ⟨hlt, fun hne => ?_⟩
    have hblocks : radix.pairedBlocks ≠ [] := by
      rintro hnil
      rw [hnil, List.length_nil, mul_zero] at hlen
      exact hne (List.eq_nil_of_length_eq_zero hlen)
    obtain ⟨init, m, hspace, hlevel, hds⟩ := hlast hblocks
    refine ⟨init, m, hspace, hlevel, ?_⟩
    rw [DirectDecryptKey.lastDigit, hlen, if_pos (even_two_mul _), hds]
  | some block =>
    rw [hb] at h
    obtain ⟨last, hl, h⟩ := bind_eq_ok.1 h
    cases h
    obtain ⟨hpos, m, hspace, hlevel, rfl⟩ := decodeLast_eq_ok hl
    refine ⟨?_, fun _ => ⟨paired, m, hspace, hlevel, ?_⟩⟩
    · intro d hd
      rcases List.mem_append.1 hd with hd | hd
      · exact hlt d hd
      · rw [List.mem_singleton.1 hd]
        exact Nat.mod_lt _ hpos
    · rw [DirectDecryptKey.lastDigit, List.length_append, List.length_singleton, hlen, if_neg]
      exact Nat.not_even_two_mul_add_one _

theorem joinDigits_eq_ok {b maxBits : ℕ} {ds : List ℕ} {v : U256} (hb : 0 < b)
    (h : joinDigits T b ds maxBits = .ok v) :
    ds ≠ [] ∧ b * ds.length ≤ (maxBits + b - 1) / b * b ∧ orDigits T b 0 ds 0 = .ok v := by
  unfold joinDigits at h
  split_ifs at h with hne
  · cases h
  · unfold checkedMul at h
    split_ifs at h
    · obtain ⟨limit, hlimit, h⟩ := bind_eq_ok.1 h
      rw [nextMultipleOf, if_neg hb.ne'] at hlimit
      cases hlimit
      split_ifs at h with hgt
      · cases h
      · exact ⟨hne, by omega, h⟩
    · cases h

/-- A boolean is 0 or 1 whatever its block holds. -/
theorem decryptBool_lt {bytes : List UInt8} {v : U256} (h : decryptBool T key bytes = .ok v) :
    v.toNat < 2 := by
  obtain ⟨mirror, -, h⟩ := bind_eq_ok.1 h
  cases mirror with
  | seeded => cases h
  | modulusSwitched block =>
    obtain ⟨⟨m, M⟩, -, h⟩ := bind_eq_ok.1 h
    obtain ⟨d, -, h⟩ := bind_eq_ok.1 h
    cases h
    split_ifs <;> decide

/-! ## The last digit decides -/

section guard
variable (hM : isPowerOfTwo key.messageModulus.toNat = true)
  (hM' : 2 ≤ key.messageModulus.toNat)
include hM hM'

/-- A type that whole digits do not fill has some bits left for the last of them. -/
theorem bits_eq {ty : EncryptionType} (h : ¬ key.bits ∣ ty.bits) :
    ty.bits = key.bits * (key.maxDigits ty - 1) + ty.bits % key.bits ∧
      0 < key.maxDigits ty ∧ 0 < ty.bits % key.bits ∧ ty.bits % key.bits < key.bits := by
  obtain ⟨-, hpos, -⟩ := message_eq_two_pow hM hM'
  have hr : 0 < ty.bits % key.bits := Nat.pos_of_ne_zero fun h0 => h (Nat.dvd_of_mod_eq_zero h0)
  have hlt := Nat.mod_lt ty.bits hpos
  have hdiv := Nat.div_add_mod ty.bits key.bits
  have hmax : key.maxDigits ty = ty.bits / key.bits + 1 := by
    rw [DirectDecryptKey.maxDigits,
      show ty.bits + key.bits - 1 = ty.bits % key.bits - 1 + key.bits * (ty.bits / key.bits + 1) by
        rw [mul_add, mul_one]
        omega,
      Nat.add_mul_div_left _ _ hpos,
      Nat.div_eq_of_lt (show ty.bits % key.bits - 1 < key.bits by omega), zero_add]
  rw [hmax]
  exact ⟨by rw [Nat.add_sub_cancel, hdiv], Nat.succ_pos _, hr, hlt⟩

/-- What a radix ciphertext decodes to, by its digits. -/
theorem decodeRadix_eq_ok {radix : GenericMirror} {ty : EncryptionType} {v : U256}
    (h : decodeRadix T key radix ty.bits = .ok v) :
    ∃ init m, key.HasSpace T.build ∧ key.Level m ∧
      (∀ d ∈ init, d < 2 ^ key.bits) ∧ init.length + 1 ≤ key.maxDigits ty ∧
      key.lastDigit (init.length + 1) m < 2 ^ key.bits ∧
      v.toNat = Nat.ofDigits (2 ^ key.bits) (init ++ [key.lastDigit (init.length + 1) m]) := by
  obtain ⟨hpow, hpos, hlt⟩ := message_eq_two_pow hM hM'
  rw [decodeRadix_of_guard hM hM'] at h
  obtain ⟨ds, hds, h⟩ := bind_eq_ok.1 h
  rw [show trailingZeros key.messageModulus.toNat = key.bits by
    rw [hpow, trailingZeros_two_pow hlt]] at h
  obtain ⟨hne, hle, hor⟩ := joinDigits_eq_ok hpos h
  obtain ⟨hdlt, hlast⟩ := decodeDigits_eq_ok hds
  obtain ⟨init, m, hspace, hlevel, hinit⟩ := hlast hne
  have hlen : ds.length = init.length + 1 := by
    rw [hinit, List.length_append, List.length_singleton]
  rw [hlen] at hinit hle
  have heq : orDigits T key.bits 0 ds 0
      = .ok (BitVec.ofNat 256 (Nat.ofDigits key.messageModulus.toNat ds)) ∧
      Nat.ofDigits key.messageModulus.toNat ds < 2 ^ 256 :=
    orDigits_ofDigits hM hM' hdlt (show key.bits * ds.length ≤ key.limit ty.bits by rwa [hlen])
  have hv : v.toNat = Nat.ofDigits (2 ^ key.bits) ds := by
    rw [Except.ok.inj (hor.symm.trans heq.1), BitVec.toNat_ofNat, Nat.mod_eq_of_lt heq.2, hpow]
  rw [hpow, hinit] at hdlt
  rw [hinit] at hv
  refine ⟨init, m, hspace, hlevel, fun d hd => hdlt d (List.mem_append_left _ hd), ?_,
    hdlt _ (List.mem_append_right _ List.mem_cons_self), hv⟩
  rw [mul_comm] at hle
  exact Nat.le_of_mul_le_mul_right hle hpos

/-- Within the widths the condition names, the last digit holds no bit past the type. -/
theorem lastDigit_lt {ty : EncryptionType} {m : ℕ} (hdvd : ¬ key.bits ∣ ty.bits)
    (hlevel : key.Level m) (hspace : key.HasSpace T.build) (hfits : key.FitsWidth T.build ty)
    (hty : ty ≠ .bool) :
    key.lastDigit (key.maxDigits ty) m < 2 ^ (ty.bits % key.bits) := by
  obtain ⟨hpow, -, -⟩ := message_eq_two_pow hM hM'
  rcases hfits with hbool | hwhole | hempty | ⟨heven, hle⟩ | ⟨-, hmiss⟩
  · exact absurd hbool hty
  · exact absurd hwhole hdvd
  · exact absurd hspace hempty
  · obtain ⟨L, x, -, -, -, -, rfl⟩ := hlevel
    have hlt := (nearest_lt hspace.2 (2 ^ L) x).trans_le hle
    rw [DirectDecryptKey.lastDigit, if_pos heven]
    refine (Nat.mod_le _ _).trans_lt (Nat.div_lt_of_lt_mul ?_)
    rwa [hpow, ← pow_add]
  · exact hmiss m hlevel

/-- Under the condition every decrypted value fits its type. -/
theorem decryptCompressed_holds {ty : EncryptionType} (hfits : key.FitsWidth T.build ty)
    {bytes : List UInt8} {v : U256} (h : decryptCompressed T key ty bytes = .ok v) :
    ty.Holds v := by
  by_cases hty : ty = .bool
  · subst hty
    exact EncryptionType.holds_of_lt (decryptBool_lt h)
  obtain ⟨hpow, hpos, -⟩ := message_eq_two_pow hM hM'
  have huint : decryptUint T key ty bytes ty.bits = .ok v := by
    cases ty <;> first | exact absurd rfl hty | exact h
  obtain ⟨mirror, -, hr⟩ := bind_eq_ok.1 huint
  cases mirror with
  | seeded => cases hr
  | modulusSwitched ms =>
    obtain ⟨init, m, hspace, hlevel, hinit, hlen, hlast, hv⟩ := decodeRadix_eq_ok hM hM' hr
    refine EncryptionType.holds_of_lt ?_
    rw [hv]
    have hds : ∀ d ∈ init ++ [key.lastDigit (init.length + 1) m], d < 2 ^ key.bits := by
      intro d hd
      rcases List.mem_append.1 hd with hd | hd
      · exact hinit d hd
      · rwa [List.mem_singleton.1 hd]
    have hall := ofDigits_lt hds
    rw [List.length_append, List.length_singleton] at hall
    by_cases hdvd : key.bits ∣ ty.bits
    · obtain ⟨k, hk⟩ := hdvd
      have hmax : key.maxDigits ty = k := by
        rw [DirectDecryptKey.maxDigits, hk, Nat.add_sub_assoc hpos, Nat.mul_add_div hpos,
          Nat.div_eq_of_lt (by omega), add_zero]
      rw [hk]
      exact hall.trans_le (Nat.pow_le_pow_right (by omega) (Nat.mul_le_mul_left _ (hmax ▸ hlen)))
    · obtain ⟨hbits, hmax, -, -⟩ := bits_eq hM hM' hdvd
      rcases hlen.lt_or_eq with hshort | hfull
      · refine hall.trans_le (Nat.pow_le_pow_right (by omega) ?_)
        have : key.bits * (init.length + 1) ≤ key.bits * (key.maxDigits ty - 1) :=
          Nat.mul_le_mul_left _ (by omega)
        omega
      · have hlow : init.length = key.maxDigits ty - 1 := by omega
        rw [hbits, ← hlow]
        rw [hfull] at hall ⊢
        exact (ofDigits_concat_lt hinit).2 (lastDigit_lt hM hM' hdvd hlevel hspace hfits hty)

/-- Twice the message modulus divides the cleartext space, also as a word holds it. -/
theorem two_mul_dvd_wrapped : 2 * key.messageModulus.toNat ∣ key.wrapped := by
  obtain ⟨hpow, -, hlt⟩ := message_eq_two_pow hM hM'
  have hword : 2 * key.messageModulus.toNat ∣ 2 ^ 64 := by
    rw [hpow, ← pow_succ']
    exact pow_dvd_pow 2 hlt
  rw [DirectDecryptKey.wrapped, Nat.dvd_mod_iff hword]
  exact Dvd.intro _ rfl

/-- Outside the condition some level has a last digit with a bit past the type. -/
theorem exists_level {B : Build} {ty : EncryptionType} (hspace : key.HasSpace B)
    (hdvd : ¬ key.bits ∣ ty.bits)
    (heven : ¬ (Even (key.maxDigits ty) ∧ key.wrapped ≤ 2 ^ (key.bits + ty.bits % key.bits)))
    (hlong : ¬ (2 ^ 64 ≤ (key.smallLweKey.length + 1) * 63 ∧
      ∀ m, key.Level m → key.lastDigit (key.maxDigits ty) m < 2 ^ (ty.bits % key.bits))) :
    ∃ m, key.Level m ∧ 2 ^ (ty.bits % key.bits) ≤ key.lastDigit (key.maxDigits ty) m := by
  by_cases hlen : 2 ^ 64 ≤ (key.smallLweKey.length + 1) * 63
  · by_contra hall
    exact hlong ⟨hlen, fun m hm => not_le.1 fun hle => hall ⟨m, hm, hle⟩⟩
  obtain ⟨hpow, hpos, -⟩ := message_eq_two_pow hM hM'
  obtain ⟨-, -, hr, hrb⟩ := bits_eq hM hM' hdvd
  obtain ⟨r, hreq⟩ : ∃ r, ty.bits % key.bits = r := ⟨_, rfl⟩
  rw [hreq] at heven hr hrb ⊢
  -- at 63 bits a level is at most two phases wide, so one of two neighbours is reached
  have hreach : ∀ a, 0 < a → a + 2 ≤ key.wrapped →
      ∃ m, key.Level m ∧ (m = a ∨ m = a + 1) := by
    intro a ha hle
    have hwrap : key.wrapped ≤ 2 * 2 ^ 63 := (Nat.mod_lt _ (by positivity)).le
    obtain ⟨x, hx, hm⟩ := nearest_adjacent (dvd_pow_self 2 (by omega)) hwrap ha hle
    exact ⟨_, ⟨63, x, by omega, by omega, not_le.1 hlen, hx, rfl⟩, hm⟩
  have hdouble : 2 * 2 ^ r ≤ key.messageModulus.toNat := by
    rw [hpow, ← pow_succ']
    exact Nat.pow_le_pow_right (by omega) hrb
  have hr2 : 2 ≤ 2 ^ r := Nat.le_self_pow hr.ne' 2
  have hwrapped : 2 * key.messageModulus.toNat ≤ key.wrapped :=
    Nat.le_of_dvd hspace.2 (two_mul_dvd_wrapped hM hM')
  unfold DirectDecryptKey.lastDigit
  by_cases hparity : Even (key.maxDigits ty)
  · have hgt : 2 ^ r * key.messageModulus.toNat < key.wrapped := by
      rw [hpow, ← pow_add, add_comm]
      exact not_le.1 fun hle => heven ⟨hparity, hle⟩
    have heven' : 2 ∣ key.wrapped := (Dvd.intro _ rfl).trans (two_mul_dvd_wrapped hM hM')
    have heven'' : 2 ∣ 2 ^ r * key.messageModulus.toNat :=
      (dvd_pow_self 2 hr.ne').mul_right _
    have hprod : 0 < 2 ^ r * key.messageModulus.toNat := by positivity
    obtain ⟨m, hlevel, hm⟩ := hreach (2 ^ r * key.messageModulus.toNat) hprod (by omega)
    have hdiv : m / key.messageModulus.toNat = 2 ^ r := by
      rw [Nat.div_eq_iff (by omega)]
      rcases hm with rfl | rfl <;> constructor <;> omega
    refine ⟨m, hlevel, ?_⟩
    rw [if_pos hparity, hdiv, Nat.mod_eq_of_lt (by omega)]
  · obtain ⟨m, hlevel, hm⟩ := hreach (2 ^ r) (by omega) (by omega)
    refine ⟨m, hlevel, ?_⟩
    rw [if_neg hparity, Nat.mod_eq_of_lt (by omega)]
    omega

end guard

/-! ## A ciphertext for every level -/

/-- Some block decodes to a given level, whatever it is. -/
theorem exists_block {B : Build} (hspace : key.HasSpace B) {m : ℕ} (h : key.Level m) :
    ∃ block, ∀ T : Tfhe, T.build = B → T.unpack = unpackWords →
      decodeBlock T key block = .ok (m, key.messageModulus.toNat) := by
  obtain ⟨L, x, hL, hL', hbits, hx, rfl⟩ := h
  refine ⟨encryptBlock key L (List.replicate key.smallLweKey.length 0) x 0, ?_⟩
  rintro T rfl hT
  have hmask : ∀ a ∈ List.replicate key.smallLweKey.length (0 : UInt64), a.toNat < 2 ^ L := by
    intro a ha
    rw [List.eq_of_mem_replicate ha]
    exact Nat.two_pow_pos L
  obtain ⟨hwords, hun⟩ := unpackWords_pack (m := 0) (e := x) (L := L)
    List.length_replicate hmask rfl
  obtain ⟨⟨twice, htwice, hsize⟩, hpos⟩ := space_eq_ok.2 ⟨hspace, rfl⟩
  have hcheck : checkBlock T key
      (encryptBlock key L (List.replicate key.smallLweKey.length 0) x 0) = .ok _ :=
    checkBlock_classic rfl rfl rfl rfl hL hL' hbits hwords
  have hphase : phase key L (List.replicate key.smallLweKey.length 0) (UInt64.ofNat
      (bodyOf key L (List.replicate key.smallLweKey.length 0) x 0)) = x := by
    have hbody : ((UInt64.ofNat (bodyOf key L (List.replicate key.smallLweKey.length 0) x 0)).toNat
        : ℤ) = _ := toNat_bodyOf hL' _ x
    have hmod := phase_modEq hL' hbody
    rw [Nat.cast_zero, zero_mul, zero_add] at hmod
    exact Nat.ModEq.eq_of_lt_of_lt (Int.natCast_modEq_iff.1 hmod) (Nat.mod_lt _ (by positivity)) hx
  have hlt : key.wrapped < 2 ^ 64 := Nat.mod_lt _ (by positivity)
  rw [decodeBlock, hcheck, ok_bind, hT, hun, decodeLwe_of_space htwice hsize hpos hlt hL hL',
    hphase]

/-- As many digits as `n`, all from one block. -/
def repeatBlock (n : ℕ) (h : n < 2 ^ 57) (block : BlockMirror) : GenericMirror where
  pairedBlocks := List.replicate (n / 2) block
  lastBlock := if Even n then none else some block
  len_lt := by
    rw [List.length_replicate]
    omega

section repeated
variable {m : ℕ} (hpos : 0 < key.messageModulus.toNat)
  (hb : decodeBlock T key block = .ok (m, key.messageModulus.toNat))
include hpos hb

theorem decodePair_of_block : decodePair T key block =
    .ok [m % key.messageModulus.toNat, m / key.messageModulus.toNat % key.messageModulus.toNat] := by
  rw [decodePair, hb, ok_bind]
  simp only [rem_of_pos hpos, div_of_pos hpos, ok_bind]
  rfl

theorem decodePairs_replicate : ∀ k : ℕ, decodePairs T key (List.replicate k block) =
    .ok (List.replicate k [m % key.messageModulus.toNat,
      m / key.messageModulus.toNat % key.messageModulus.toNat]).flatten
  | 0 => rfl
  | k + 1 => by
    rw [List.replicate_succ, decodePairs, decodePair_of_block hpos hb, ok_bind,
      decodePairs_replicate k, ok_bind, List.replicate_succ, List.flatten_cons]
    rfl

/-- Every block gives its two digits, and the last digit is the block's. -/
theorem decodeDigits_repeatBlock {n : ℕ} (h : n < 2 ^ 57) (hn : 0 < n) :
    ∃ init, decodeDigits T key (repeatBlock n h block) = .ok (init ++ [key.lastDigit n m]) ∧
      init.length + 1 = n := by
  have hpaired : decodePairs T key (repeatBlock n h block).pairedBlocks = .ok _ :=
    decodePairs_replicate hpos hb (n / 2)
  unfold decodeDigits DirectDecryptKey.lastDigit
  rw [hpaired, ok_bind]
  rcases Nat.even_or_odd n with heven | hodd
  · have hlast : (repeatBlock n h block).lastBlock = none := if_pos heven
    obtain ⟨k, hk⟩ : ∃ k, n / 2 = k + 1 :=
      Nat.exists_eq_succ_of_ne_zero (by have := heven.two_dvd; omega)
    rw [hlast, if_pos heven, hk, List.replicate_succ', List.flatten_append, List.flatten_singleton]
    refine ⟨(List.replicate k [m % key.messageModulus.toNat,
      m / key.messageModulus.toNat % key.messageModulus.toNat]).flatten
        ++ [m % key.messageModulus.toNat], ?_, ?_⟩
    · rw [List.append_assoc]
      rfl
    · have := heven.two_dvd
      simp only [List.length_append, List.length_flatten, List.map_replicate, List.sum_replicate,
        List.length_cons, List.length_nil, smul_eq_mul]
      omega
  · have hlast : (repeatBlock n h block).lastBlock = some block :=
      if_neg (Nat.not_even_iff_odd.2 hodd)
    rw [hlast, if_neg (Nat.not_even_iff_odd.2 hodd)]
    refine ⟨(List.replicate (n / 2) [m % key.messageModulus.toNat,
      m / key.messageModulus.toNat % key.messageModulus.toNat]).flatten, ?_, ?_⟩
    · simp only [decodeLast, hb, ok_bind, rem_of_pos hpos]
      rfl
    · have := Nat.odd_iff.1 hodd
      simp only [List.length_flatten, List.map_replicate, List.sum_replicate, List.length_cons,
        List.length_nil, smul_eq_mul]
      omega

end repeated

/-- A level whose last digit has a bit past the type is the level of a ciphertext, and what this
decodes to does not fit. -/
theorem exists_not_holds (hM : isPowerOfTwo key.messageModulus.toNat = true)
    (hM' : 2 ≤ key.messageModulus.toNat) {B : Build} (hspace : key.HasSpace B)
    {ty : EncryptionType} (hty : ty ≠ .bool) (hdvd : ¬ key.bits ∣ ty.bits) {m : ℕ}
    (hlevel : key.Level m)
    (hm : 2 ^ (ty.bits % key.bits) ≤ key.lastDigit (key.maxDigits ty) m) :
    ∃ (T : Tfhe) (v : U256), T.build = B ∧ decryptCompressed T key ty [] = .ok v ∧
      ¬ ty.Holds v := by
  obtain ⟨hpow, hpos, -⟩ := message_eq_two_pow hM hM'
  obtain ⟨hbits, hmax, -, -⟩ := bits_eq hM hM' hdvd
  obtain ⟨block, hblock⟩ := exists_block hspace hlevel
  have hlimit : key.limit ty.bits = key.maxDigits ty * key.bits := rfl
  have h256 := limit_le hM hM' ty
  have hlen : key.maxDigits ty < 2 ^ 57 := by
    have : key.maxDigits ty * 1 ≤ key.maxDigits ty * key.bits := Nat.mul_le_mul_left _ hpos
    omega
  obtain ⟨T, hT⟩ : ∃ T : Tfhe,
      { readsAs (repeatBlock (key.maxDigits ty) hlen block) with build := B } = T := ⟨_, rfl⟩
  have hdecode := hblock T (by rw [← hT]) (by rw [← hT]; rfl)
  obtain ⟨init, hdigits, hinit⟩ := decodeDigits_repeatBlock (by omega) hdecode hlen hmax
  have hds := (decodeDigits_eq_ok hdigits).1
  have hle : key.bits * (init ++ [key.lastDigit (key.maxDigits ty) m]).length
      ≤ key.limit ty.bits := by
    rw [List.length_append, List.length_singleton, hinit, hlimit, mul_comm]
  obtain ⟨hor, hword⟩ := orDigits_ofDigits (T := T) hM hM' hds hle
  have hok := decodeRadix_of_digits hM hM' hdigits (by simp) (by omega) ty.bits
  rw [if_neg (by omega), hor] at hok
  refine ⟨T, BitVec.ofNat 256 (Nat.ofDigits key.messageModulus.toNat
    (init ++ [key.lastDigit (key.maxDigits ty) m])), by rw [← hT], ?_, fun hholds => ?_⟩
  · have huint : decryptUint T key ty [] ty.bits
        = decodeRadix T key (repeatBlock (key.maxDigits ty) hlen block) ty.bits := by
      rw [← hT]
      rfl
    cases ty <;> first | exact absurd rfl hty | exact huint.trans hok
  · have hlt := hholds.1
    rw [BitVec.toNat_ofNat, Nat.mod_eq_of_lt hword, hpow, hbits,
      show key.maxDigits ty - 1 = init.length by omega, ofDigits_concat_lt] at hlt
    · omega
    · intro d hd
      rw [← hpow]
      exact hds d (List.mem_append_left _ hd)

/-- Every decrypted value fits its declared type exactly at the widths of the condition. -/
theorem decryptCompressed_holds_iff (B : Build) (key : DirectDecryptKey)
    (hM : isPowerOfTwo key.messageModulus.toNat = true) (hM' : 2 ≤ key.messageModulus.toNat)
    (ty : EncryptionType) :
    (∀ T : Tfhe, T.build = B → ∀ (bytes : List UInt8) (v : U256),
      decryptCompressed T key ty bytes = .ok v → ty.Holds v) ↔ key.FitsWidth B ty := by
  constructor
  · intro hall
    by_contra hfits
    simp only [DirectDecryptKey.FitsWidth, not_or, not_not] at hfits
    obtain ⟨hty, hdvd, hspace, heven, hlong⟩ := hfits
    obtain ⟨m, hlevel, hm⟩ := exists_level hM hM' hspace hdvd heven hlong
    obtain ⟨T, v, hB, hok, hnot⟩ := exists_not_holds hM hM' hspace hty hdvd hlevel hm
    exact hnot (hall T hB [] v hok)
  · rintro hfits T rfl bytes v h
    exact decryptCompressed_holds hM hM' hfits h

/-- Three-bit digits. -/
def threeBitKey : DirectDecryptKey :=
  { twoBitKey with messageModulus := 8, carryModulus := 8 }

/-- Nine set bits, in three digits. -/
def threeBitRadix : GenericMirror := encryptRadix threeBitKey 10 [7, 7, 7] (by decide)

/-- Three-bit digits of which a pair carries four bits. -/
def noCarryKey : DirectDecryptKey :=
  { twoBitKey with messageModulus := 8, carryModulus := 1 }

/-- The largest digits such pairs have. -/
def noCarryRadix : GenericMirror := encryptRadix noCarryKey 10 [7, 1, 7, 1, 7, 1] (by decide)

theorem decryptCompressed_holds_iff_digits :
    EncryptionType.u8.Holds 39 ∧ EncryptionType.u16.Holds 62415 ∧
    ¬ ∀ T : Tfhe, T.build = ⟨true⟩ → ∀ (bytes : List UInt8) (v : U256),
      decryptCompressed T threeBitKey .u8 bytes = .ok v → EncryptionType.u8.Holds v := by
  refine ⟨?_, ?_, fun hall => ?_⟩
  · exact (decryptCompressed_holds_iff ⟨true⟩ twoBitKey (by decide) (by decide) .u8).2
      (.inr (.inl (by decide))) (readsAs twoBitRadix) rfl [] 39 (by decide +kernel)
  · exact (decryptCompressed_holds_iff ⟨true⟩ noCarryKey (by decide) (by decide) .u16).2
      (.inr (.inr (.inr (.inl (by decide))))) (readsAs noCarryRadix) rfl [] 62415 (by decide +kernel)
  · rcases (decryptCompressed_holds_iff ⟨true⟩ threeBitKey (by decide) (by decide) .u8).1 hall
      with hbool | hwhole | hempty | heven | hlong
    · exact absurd hbool (by decide)
    · exact absurd hwhole (by decide)
    · exact hempty (by decide)
    · exact absurd heven (by decide)
    · exact absurd hlong.1 (by decide)

/-- Three digits of three bits are one bit more than a byte, and pass for one. -/
theorem decryptCompressed_not_holds :
    isPowerOfTwo threeBitKey.messageModulus.toNat = true ∧ 2 ≤ threeBitKey.messageModulus.toNat ∧
    decryptCompressed (readsAs threeBitRadix) threeBitKey .u8 [] = .ok 511 ∧
    ¬ (511 : U256).toNat < 2 ^ EncryptionType.u8.bits ∧
    ofBe (EncryptionType.u8.encode 511) = 255 := by
  decide +kernel

end Teecryptor
