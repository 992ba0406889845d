import Mathlib.Data.ZMod.Basic
import Mathlib.Data.Nat.Digits.Defs
import Mathlib.Tactic.LinearCombination
import Mathlib.Tactic.Ring

/-!
# Rounding a noisy phase, and packed digits

The phase of an LWE ciphertext is a message scaled to the modulus plus a noise, known modulo a
power of two. The nearest of the message's levels is the message as long as the noise is below
half a level. Digits are carried in pairs, so that a message is two of them, and a number is put
together from its digits with shifts.
-/

namespace Lwe

/-- The nearest of `p` levels spread over the modulus `q`. -/
def nearest (p q x : ℕ) : ℕ := (x * p + q / 2) / q % p

/-- The half-open window of noise that rounding removes, in halves of a level. -/
def Noise (p q : ℕ) (e : ℤ) : Prop := -(q : ℤ) ≤ 2 * p * e ∧ 2 * p * e < q

instance (p q : ℕ) (e : ℤ) : Decidable (Noise p q e) := inferInstanceAs (Decidable (_ ∧ _))

theorem nearest_eq {p q m x : ℕ} {e : ℤ} (hp : p ∣ q) (hq : 0 < q) (h2 : 2 ∣ q) (hm : m < p)
    (he : Noise p q e) (hx : (x : ℤ) ≡ m * (q / p : ℕ) + e [ZMOD q]) : nearest p q x = m := by
  obtain ⟨t, ht⟩ := hx.symm.dvd
  obtain ⟨d, rfl⟩ := hp
  have hp0 : 0 < p := by omega
  obtain ⟨h, hh⟩ := h2
  rw [Nat.mul_div_cancel_left d hp0] at ht
  unfold nearest
  have hdiv : (x * p + p * d / 2) / (p * d) = (m + t * p : ℤ) := by
    have hlo : (0 : ℤ) ≤ p * e + h := by
      have := he.1
      push_cast [hh] at this
      linarith
    have hhi : (p * e + h : ℤ) < p * d := by
      have := he.2
      push_cast [hh] at this
      have : ((p * d : ℕ) : ℤ) = 2 * h := by exact_mod_cast hh
      push_cast at this
      linarith
    have hx : (x * p + h : ℤ) = (p * e + h) + (p * d) * (m + t * p) := by
      push_cast at ht
      linear_combination (p : ℤ) * ht
    have hhalf : ((p * d : ℕ) : ℤ) / 2 = h := by
      rw [hh]
      push_cast
      omega
    push_cast at hhalf
    have hpd : (p * d : ℤ) ≠ 0 := by exact_mod_cast hq.ne'
    rw [hhalf, hx, Int.add_mul_ediv_left _ _ hpd, Int.ediv_eq_zero_of_lt hlo hhi, zero_add]
  have hmod : (((x * p + p * d / 2) / (p * d) % p : ℕ) : ℤ) = m := by
    push_cast
    rw [hdiv, Int.add_mul_emod_self_right, Int.emod_eq_of_lt (by omega) (by omega)]
  exact_mod_cast hmod

/-- Where a level is no wider than two steps of the phase, one of any two neighbours is reached. -/
theorem nearest_adjacent {p q a : ℕ} (h2 : 2 ∣ q) (hp : p ≤ 2 * q) (ha : 0 < a) (hap : a + 2 ≤ p) :
    ∃ x < q, nearest p q x = a ∨ nearest p q x = a + 1 := by
  obtain ⟨h, rfl⟩ := h2
  have hh : 0 < h := by omega
  have hhalf : 2 * h / 2 = h := by omega
  -- the first phase that rounds up to `a`
  have hex : ∃ x, a * (2 * h) ≤ x * p + h := by
    refine ⟨a * (2 * h), ?_⟩
    have : a * (2 * h) * 1 ≤ a * (2 * h) * p := Nat.mul_le_mul_left _ (by omega)
    omega
  obtain ⟨x, hx, hmin⟩ : ∃ x, a * (2 * h) ≤ x * p + h ∧ ∀ y < x, ¬ a * (2 * h) ≤ y * p + h :=
    ⟨Nat.find hex, Nat.find_spec hex, fun y hy => Nat.find_min hex hy⟩
  have hstep : 1 * (2 * h) ≤ a * (2 * h) := Nat.mul_le_mul_right _ ha
  obtain ⟨y, rfl⟩ : ∃ y, x = y + 1 := by
    refine Nat.exists_eq_succ_of_ne_zero ?_
    rintro rfl
    omega
  have hlt : y * p + h < a * (2 * h) := not_le.1 (hmin y (Nat.lt_succ_self y))
  rw [add_mul, one_mul] at hx
  have hle : (a + 2) * (2 * h) ≤ p * (2 * h) := Nat.mul_le_mul_right _ hap
  rw [add_mul] at hle
  have hquot : (y * p + p + h) / (2 * h) = a ∨ (y * p + p + h) / (2 * h) = a + 1 := by
    have hlo : a ≤ (y * p + p + h) / (2 * h) := (Nat.le_div_iff_mul_le (by omega)).2 (by omega)
    have hhi : (y * p + p + h) / (2 * h) < a + 2 := by
      rw [Nat.div_lt_iff_lt_mul (by omega), add_mul]
      omega
    omega
  refine ⟨y + 1, ?_, ?_⟩
  · have hyp : (y + 1) * p < 2 * h * p := by
      rw [add_mul, one_mul, mul_comm (2 * h)]
      omega
    exact lt_of_mul_lt_mul_right hyp (Nat.zero_le p)
  · unfold nearest
    rw [add_mul, one_mul, hhalf]
    rcases hquot with hq | hq
    · exact .inl (by rw [hq, Nat.mod_eq_of_lt (by omega)])
    · exact .inr (by rw [hq, Nat.mod_eq_of_lt (by omega)])

/-! ## Words, modulo a power of two -/

/-- A word modulo `2 ^ L`. -/
def word (L : ℕ) (x : UInt64) : ZMod (2 ^ L) := (x.toNat : ZMod (2 ^ L))

/-- The exact inner product of two vectors of words. -/
def inner (mask sk : List UInt64) : ℕ :=
  (List.zipWith (fun a s => a.toNat * s.toNat) mask sk).sum

section word
variable {L : ℕ} (hL : L ≤ 64)
include hL

theorem natCast_mod_word (n : ℕ) : ((n % 2 ^ 64 : ℕ) : ZMod (2 ^ L)) = n := by
  rw [ZMod.natCast_eq_natCast_iff]
  exact (Nat.mod_modEq n (2 ^ 64)).of_dvd (pow_dvd_pow 2 hL)

theorem word_add (x y : UInt64) : word L (x + y) = word L x + word L y := by
  unfold word
  rw [UInt64.toNat_add, natCast_mod_word hL, Nat.cast_add]

theorem word_mul (x y : UInt64) : word L (x * y) = word L x * word L y := by
  unfold word
  rw [UInt64.toNat_mul, natCast_mod_word hL, Nat.cast_mul]

theorem word_sub (x y : UInt64) : word L (x - y) = word L x - word L y := by
  have h := word_add hL (x - y) y
  rw [UInt64.sub_add_cancel] at h
  rw [h, add_sub_cancel_right]

/-- A wrapping inner product is the exact one modulo any power of two the word holds. -/
theorem word_dot (mask sk : List UInt64) :
    word L ((List.zipWith (· * ·) mask sk).foldl (· + ·) 0) = (inner mask sk : ZMod (2 ^ L)) := by
  suffices h : ∀ acc : UInt64, word L ((List.zipWith (· * ·) mask sk).foldl (· + ·) acc)
      = word L acc + (inner mask sk : ZMod (2 ^ L)) by
    rw [h 0]
    simp [word]
  induction mask generalizing sk with
  | nil => simp [inner]
  | cons a mask ih =>
    intro acc
    cases sk with
    | nil => simp [inner]
    | cons s sk =>
      rw [List.zipWith_cons_cons, List.foldl_cons, ih sk, word_add hL, word_mul hL]
      simp only [inner, List.zipWith_cons_cons, List.sum_cons, Nat.cast_add, Nat.cast_mul, word]
      ring

end word

/-- The low bits of a word are its value modulo their power. -/
theorem toNat_and_mask {L : ℕ} (hL : L < 64) (x : UInt64) :
    (x &&& UInt64.ofNat (2 ^ L - 1)).toNat = x.toNat % 2 ^ L := by
  have hlt : 2 ^ L < 2 ^ 64 := Nat.pow_lt_pow_right (by omega) hL
  rw [UInt64.toNat_and, UInt64.toNat_ofNat', Nat.mod_eq_of_lt (by omega),
    Nat.and_two_pow_sub_one_eq_mod]

/-! ## Digits -/

/-- Consecutive digits two by two, the lower one first, and the one left over. -/
def pairs {α : Type} : List α → List (α × α) × Option α
  | [] => ([], none)
  | [d] => ([], some d)
  | d :: d' :: ds => ((d, d') :: (pairs ds).1, (pairs ds).2)

section pairs
variable {α : Type} {d : α} {p : α × α}

theorem flatMap_pairs : ∀ ds : List α,
    (pairs ds).1.flatMap (fun p => [p.1, p.2]) ++ (pairs ds).2.toList = ds
  | [] => rfl
  | [_] => rfl
  | d :: d' :: ds => by
    simpa [pairs] using flatMap_pairs ds

theorem length_pairs (ds : List α) : ds.length ≤ 2 * (pairs ds).1.length + 1 := by
  have h := congrArg List.length (flatMap_pairs ds)
  have hlast : (pairs ds).2.toList.length ≤ 1 := by cases (pairs ds).2 <;> simp
  simp only [List.length_append, List.length_flatMap, List.length_cons, List.length_nil,
    List.map_const', List.sum_replicate, smul_eq_mul] at h
  omega

theorem length_pairs_le (ds : List α) : (pairs ds).1.length ≤ ds.length := by
  have h := congrArg List.length (flatMap_pairs ds)
  simp only [List.length_append, List.length_flatMap, List.length_cons, List.length_nil,
    List.map_const', List.sum_replicate, smul_eq_mul] at h
  omega

theorem mem_of_pairs {ds : List α} (h : (pairs ds).2 = some d) : d ∈ ds := by
  rw [← flatMap_pairs ds, h]
  simp

theorem fst_mem_of_pairs {ds : List α} (h : p ∈ (pairs ds).1) : p.1 ∈ ds := by
  rw [← flatMap_pairs ds]
  exact List.mem_append_left _ (List.mem_flatMap.2 ⟨p, h, by simp⟩)

theorem snd_mem_of_pairs {ds : List α} (h : p ∈ (pairs ds).1) : p.2 ∈ ds := by
  rw [← flatMap_pairs ds]
  exact List.mem_append_left _ (List.mem_flatMap.2 ⟨p, h, by simp⟩)

end pairs

/-- A number from its digits of `b` bits, the lowest first: the next digit goes over the bits
there are. -/
theorem ofDigits_or {b d n k : ℕ} (hn : n < 2 ^ (b * k)) :
    n ||| (d <<< (b * k)) = n + (2 ^ b) ^ k * d := by
  rw [Nat.shiftLeft_eq, ← pow_mul, Nat.or_comm, mul_comm d, ← Nat.two_pow_add_eq_or_of_lt hn,
    add_comm]

theorem ofDigits_lt {b : ℕ} : ∀ {ds : List ℕ}, (∀ d ∈ ds, d < 2 ^ b) →
    Nat.ofDigits (2 ^ b) ds < 2 ^ (b * ds.length)
  | [], _ => by simp
  | d :: ds, h => by
    have hd : d < 2 ^ b := h d (by simp)
    have ih : Nat.ofDigits (2 ^ b) ds < 2 ^ (b * ds.length) :=
      ofDigits_lt fun x hx => h x (by simp [hx])
    rw [Nat.ofDigits_cons, List.length_cons, mul_add, mul_one, pow_add]
    calc d + 2 ^ b * Nat.ofDigits (2 ^ b) ds
        < 2 ^ b * (Nat.ofDigits (2 ^ b) ds + 1) := by rw [mul_add, mul_one]; omega
      _ ≤ 2 ^ b * 2 ^ (b * ds.length) := Nat.mul_le_mul_left _ ih
      _ = 2 ^ (b * ds.length) * 2 ^ b := mul_comm _ _

/-- The highest digit decides how many bits over the others a number has. -/
theorem ofDigits_concat_lt {b r d : ℕ} {ds : List ℕ} (h : ∀ d ∈ ds, d < 2 ^ b) :
    Nat.ofDigits (2 ^ b) (ds ++ [d]) < 2 ^ (b * ds.length + r) ↔ d < 2 ^ r := by
  have hlow : Nat.ofDigits (2 ^ b) ds < 2 ^ (b * ds.length) := ofDigits_lt h
  rw [Nat.ofDigits_append, Nat.ofDigits_singleton, ← pow_mul, pow_add]
  constructor
  · intro hlt
    have : 2 ^ (b * ds.length) * d < 2 ^ (b * ds.length) * 2 ^ r := by omega
    exact lt_of_mul_lt_mul_left this (Nat.zero_le _)
  · intro hd
    have : 2 ^ (b * ds.length) * (d + 1) ≤ 2 ^ (b * ds.length) * 2 ^ r := Nat.mul_le_mul_left _ hd
    rw [mul_add, mul_one] at this
    omega

/-- The lowest `n` digits of `w` bits of a number. -/
def digits (w : ℕ) : ℕ → ℕ → List ℕ
  | 0, _ => []
  | n + 1, v => v % 2 ^ w :: digits w n (v / 2 ^ w)

@[simp] theorem length_digits (w : ℕ) : ∀ n v : ℕ, (digits w n v).length = n
  | 0, _ => rfl
  | n + 1, v => by rw [digits, List.length_cons, length_digits w n]

theorem lt_of_mem_digits {w : ℕ} : ∀ {n v d : ℕ}, d ∈ digits w n v → d < 2 ^ w
  | n + 1, v, d, h => by
    rcases List.mem_cons.1 h with rfl | h
    · exact Nat.mod_lt _ (by positivity)
    · exact lt_of_mem_digits h

theorem ofDigits_digits (w : ℕ) : ∀ n v : ℕ,
    Nat.ofDigits (2 ^ w) (digits w n v) = v % 2 ^ (w * n)
  | 0, v => by simp [digits, Nat.mod_one]
  | n + 1, v => by
    rw [digits, Nat.ofDigits_cons, ofDigits_digits w n, mul_add, mul_one, add_comm, pow_add,
      mul_comm (2 ^ (w * n)), Nat.mod_mul, add_comm]

theorem digits_ofDigits {w : ℕ} : ∀ {ds : List ℕ}, (∀ d ∈ ds, d < 2 ^ w) →
    digits w ds.length (Nat.ofDigits (2 ^ w) ds) = ds
  | [], _ => rfl
  | d :: ds, h => by
    have hd : d < 2 ^ w := h d (by simp)
    rw [List.length_cons, digits, Nat.ofDigits_cons, Nat.add_mul_mod_self_left,
      Nat.mod_eq_of_lt hd, Nat.add_mul_div_left _ _ (by positivity), Nat.div_eq_of_lt hd, zero_add,
      digits_ofDigits fun x hx => h x (by simp [hx])]

/-- Digits of `w` bits one after the other in words of 64. -/
def pack (w : ℕ) (ds : List ℕ) : List ℕ :=
  digits 64 ((ds.length * w + 63) / 64) (Nat.ofDigits (2 ^ w) ds)

theorem lt_of_mem_pack {w d : ℕ} {ds : List ℕ} (h : d ∈ pack w ds) : d < 2 ^ 64 :=
  lt_of_mem_digits h

/-- The first `n` digits of `w` bits in words of 64. -/
def unpack (w n : ℕ) (words : List ℕ) : List ℕ := digits w n (Nat.ofDigits (2 ^ 64) words)

theorem unpack_pack {w : ℕ} {ds : List ℕ} (h : ∀ d ∈ ds, d < 2 ^ w) :
    unpack w ds.length (pack w ds) = ds := by
  have hle : w * ds.length ≤ 64 * ((ds.length * w + 63) / 64) := by
    rw [mul_comm]
    omega
  have hlt : Nat.ofDigits (2 ^ w) ds < 2 ^ (64 * ((ds.length * w + 63) / 64)) :=
    (ofDigits_lt h).trans_le (Nat.pow_le_pow_right (by omega) hle)
  rw [unpack, pack, ofDigits_digits, Nat.mod_eq_of_lt hlt, digits_ofDigits h]

end Lwe
