import Teecryptor.Lib.Rust
import Mathlib.Algebra.Order.Ring.Nat
import Mathlib.Data.List.Induction
import Mathlib.Tactic.Positivity
import Mathlib.Tactic.Ring

/-!
# Big-endian bytes and hex

Fixed-width big-endian numerals, and strings of hex digits as numbers and as bytes. A string is
the list of its characters; the length a check on bytes sees is the length of its UTF-8 encoding.
-/

namespace Bytes

/-- The number a list of bytes denotes, the most significant byte first. -/
def ofBe (l : List UInt8) : ℕ := l.foldl (fun n b => n * 256 + b.toNat) 0

/-- The last `w` bytes of `v`, the most significant first. -/
def toBe : ℕ → ℕ → List UInt8
  | 0, _ => []
  | w + 1, v => toBe w (v / 256) ++ [UInt8.ofNat v]

@[simp] theorem length_toBe : ∀ w v : ℕ, (toBe w v).length = w
  | 0, _ => rfl
  | w + 1, v => by simp [toBe, length_toBe w]

theorem ofBe_snoc (l : List UInt8) (b : UInt8) : ofBe (l ++ [b]) = ofBe l * 256 + b.toNat := by
  simp [ofBe]

theorem ofBe_toBe : ∀ w v : ℕ, ofBe (toBe w v) = v % 256 ^ w
  | 0, v => by simp [toBe, ofBe, Nat.mod_one]
  | w + 1, v => by
    have h : v % (256 * 256 ^ w) = v % 256 + 256 * (v / 256 % 256 ^ w) := Nat.mod_mul
    rw [toBe, ofBe_snoc, ofBe_toBe w, UInt8.toNat_ofNat', pow_succ' 256, h]
    omega

theorem toBe_ofBe (l : List UInt8) : toBe l.length (ofBe l) = l := by
  induction l using List.reverseRecOn with
  | nil => rfl
  | append_singleton l b ih =>
    have hb := b.toNat_lt
    rw [List.length_append, List.length_singleton, toBe, ofBe_snoc,
      show (ofBe l * 256 + b.toNat) / 256 = ofBe l by omega, ih]
    congr 2
    apply UInt8.toNat_inj.1
    rw [UInt8.toNat_ofNat']
    omega

theorem toBe_mod (w v : ℕ) : toBe w (v % 256 ^ w) = toBe w v := by
  have h := toBe_ofBe (toBe w v)
  rwa [ofBe_toBe, length_toBe] at h

/-- Two numbers below `256 ^ w` with the same `w` bytes are equal. -/
theorem toBe_inj {w v v' : ℕ} (hv : v < 256 ^ w) (hv' : v' < 256 ^ w)
    (h : toBe w v = toBe w v') : v = v' := by
  have := congrArg ofBe h
  rwa [ofBe_toBe, ofBe_toBe, Nat.mod_eq_of_lt hv, Nat.mod_eq_of_lt hv'] at this

theorem toBe_add (n : ℕ) : ∀ w v : ℕ, toBe (n + w) v = toBe n (v / 256 ^ w) ++ toBe w v
  | 0, v => by simp [toBe]
  | w + 1, v => by
    rw [← add_assoc, toBe, toBe_add n w, toBe, Nat.div_div_eq_div_mul, ← pow_succ',
      List.append_assoc]

theorem drop_toBe (n w v : ℕ) : (toBe (n + w) v).drop n = toBe w v := by
  rw [toBe_add, List.drop_append_of_le_length (by simp)]
  simp

/-! ## Hex -/

/-- The value of a hex digit, of either case. -/
def hexVal (c : Char) : Option ℕ :=
  if '0' ≤ c ∧ c ≤ '9' then some (c.toNat - '0'.toNat)
  else if 'a' ≤ c ∧ c ≤ 'f' then some (c.toNat - 'a'.toNat + 10)
  else if 'A' ≤ c ∧ c ≤ 'F' then some (c.toNat - 'A'.toNat + 10)
  else none

def isHexDigit (c : Char) : Bool := (hexVal c).isSome

/-- The number a string of hex digits denotes. -/
def hexNat (s : List Char) : ℕ := s.foldl (fun n c => n * 16 + (hexVal c).getD 0) 0

inductive FromHexError
  | oddLength
  | invalidHexCharacter (c : Char) (index : ℕ)
  deriving DecidableEq, Repr

instance : ToString FromHexError where
  toString
    | .oddLength => "Odd number of digits"
    | .invalidHexCharacter c index =>
      let shown := Rust.debugChar c
      s!"Invalid character {shown} at position {index}"

/-- The number of bytes of a string's UTF-8 encoding. -/
def utf8Len (s : List Char) : ℕ := (s.map Char.utf8Size).sum

/-- The first byte of a character's encoding, as the character of that number. -/
def leadByte (c : Char) : Char := Char.ofNat ((String.utf8EncodeChar c).headD 0).toNat

/-- Two digits to a byte, from the byte at `index` of the string on. -/
def decodePairs : ℕ → List Char → Except FromHexError (List UInt8)
  | _, [] => .ok []
  | index, [c] =>
    match hexVal c with
    | none => .error (.invalidHexCharacter (leadByte c) index)
    | some _ => .error .oddLength
  | index, c :: d :: s =>
    match hexVal c, hexVal d with
    | none, _ => .error (.invalidHexCharacter (leadByte c) index)
    | some _, none => .error (.invalidHexCharacter (leadByte d) (index + 1))
    | some h, some l => (UInt8.ofNat (h * 16 + l) :: ·) <$> decodePairs (index + 2) s

/-- The bytes a string of an even number of hex digits stands for. -/
def hexDecode (s : List Char) : Except FromHexError (List UInt8) :=
  if utf8Len s % 2 = 1 then .error .oddLength else decodePairs 0 s

/-- Two lowercase digits a byte. -/
def hexEncode (bytes : List UInt8) : List Char :=
  bytes.flatMap fun b => [Nat.digitChar (b.toNat / 16), Nat.digitChar (b.toNat % 16)]

/-! ## What decoding gives -/

theorem hexVal_lt {c : Char} {v : ℕ} (h : hexVal c = some v) : v < 16 := by
  unfold hexVal at h
  split_ifs at h with h₁ h₂ h₃ <;> simp only [Option.some.injEq] at h
  · have : c.toNat ≤ '9'.toNat := h₁.2
    simp only [Char.reduceToNat] at this h
    omega
  · have : c.toNat ≤ 'f'.toNat := h₂.2
    simp only [Char.reduceToNat] at this h
    omega
  · have : c.toNat ≤ 'F'.toNat := h₃.2
    simp only [Char.reduceToNat] at this h
    omega

/-- A hex digit is an ASCII character. -/
theorem toNat_lt_of_hexVal {c : Char} {v : ℕ} (h : hexVal c = some v) : c.toNat < 128 := by
  unfold hexVal at h
  split_ifs at h with h₁ h₂ h₃
  · exact lt_of_le_of_lt (show c.toNat ≤ '9'.toNat from h₁.2) (by decide)
  · exact lt_of_le_of_lt (show c.toNat ≤ 'f'.toNat from h₂.2) (by decide)
  · exact lt_of_le_of_lt (show c.toNat ≤ 'F'.toNat from h₃.2) (by decide)

theorem hexVal_toLower {c : Char} {v : ℕ} (h : hexVal c = some v) :
    hexVal c.toLower = some v := by
  have key : ∀ n < 128, hexVal (Char.ofNat n).toLower = hexVal (Char.ofNat n) := by decide
  have := key c.toNat (toNat_lt_of_hexVal h)
  rw [Char.ofNat_toNat] at this
  rw [this, h]

/-- The lowercase digit of a digit's value is that digit in lowercase. -/
theorem digitChar_hexVal {c : Char} {v : ℕ} (h : hexVal c = some v) :
    Nat.digitChar v = c.toLower := by
  have key : ∀ n < 128, ∀ v ∈ hexVal (Char.ofNat n), Nat.digitChar v = (Char.ofNat n).toLower := by
    decide
  have := key c.toNat (toNat_lt_of_hexVal h)
  rw [Char.ofNat_toNat] at this
  exact this v h

theorem isHexDigit_iff {c : Char} : isHexDigit c = true ↔ ∃ v, hexVal c = some v :=
  Option.isSome_iff_exists

theorem utf8Size_of_isHexDigit {c : Char} (h : isHexDigit c) : c.utf8Size = 1 := by
  obtain ⟨v, hv⟩ := isHexDigit_iff.1 h
  have hle : c.val ≤ 127 := by
    unfold hexVal at hv
    split_ifs at hv with h₁ h₂ h₃
    · exact UInt32.le_trans h₁.2 (by decide)
    · exact UInt32.le_trans h₂.2 (by decide)
    · exact UInt32.le_trans h₃.2 (by decide)
  simp [Char.utf8Size, hle]

theorem utf8Len_of_all {s : List Char} (h : s.all isHexDigit) : utf8Len s = s.length := by
  induction s with
  | nil => rfl
  | cons c s ih =>
    simp only [List.all_cons, Bool.and_eq_true] at h
    simp only [utf8Len, List.map_cons, List.sum_cons, List.length_cons,
      utf8Size_of_isHexDigit h.1] at ih ⊢
    rw [ih h.2, add_comm]

theorem hexNat_snoc (s : List Char) (c : Char) :
    hexNat (s ++ [c]) = hexNat s * 16 + (hexVal c).getD 0 := by
  simp [hexNat]

theorem foldl_hex (s : List Char) : ∀ n : ℕ,
    s.foldl (fun n c => n * 16 + (hexVal c).getD 0) n = n * 16 ^ s.length + hexNat s := by
  induction s using List.reverseRecOn with
  | nil => simp [hexNat]
  | append_singleton s c ih =>
    intro n
    simp only [List.foldl_append, List.foldl_cons, List.foldl_nil, ih, hexNat_snoc,
      List.length_append, List.length_singleton, pow_succ]
    ring

theorem hexNat_lt (s : List Char) : hexNat s < 16 ^ s.length := by
  induction s using List.reverseRecOn with
  | nil => simp [hexNat]
  | append_singleton s c ih =>
    have hc : (hexVal c).getD 0 < 16 := by
      rcases h : hexVal c with _ | v
      · simp
      · exact hexVal_lt h
    rw [hexNat_snoc, List.length_append, List.length_singleton, pow_succ]
    omega

/-- An even number of hex digits decodes to the bytes of the number they denote. -/
theorem decodePairs_of_all : ∀ (k i : ℕ) {s : List Char}, s.length = 2 * k →
    s.all isHexDigit → decodePairs i s = .ok (toBe k (hexNat s))
  | 0, i, s, hl, _ => by
    obtain rfl := List.length_eq_zero_iff.1 (show s.length = 0 by simpa using hl)
    rfl
  | k + 1, i, [], hl, _ => by simp at hl
  | k + 1, i, [c], hl, _ => by simp at hl; omega
  | k + 1, i, c :: d :: s, hl, ha => by
    simp only [List.all_cons, Bool.and_eq_true] at ha
    obtain ⟨⟨h, hh⟩, ⟨l, hll⟩⟩ := And.intro (isHexDigit_iff.1 ha.1) (isHexDigit_iff.1 ha.2.1)
    have hlen : s.length = 2 * k := by simp only [List.length_cons] at hl; omega
    have hnat : hexNat (c :: d :: s) = (h * 16 + l) * 256 ^ k + hexNat s := by
      have := foldl_hex s (h * 16 + l)
      rw [hlen, pow_mul] at this
      simpa [hexNat, hh, hll] using this
    have hs : hexNat s < 256 ^ k := by simpa [hlen, pow_mul] using hexNat_lt s
    have hdiv : ((h * 16 + l) * 256 ^ k + hexNat s) / 256 ^ k = h * 16 + l := by
      rw [add_comm, Nat.add_mul_div_right _ _ (by positivity), Nat.div_eq_of_lt hs, zero_add]
    have hmod : ((h * 16 + l) * 256 ^ k + hexNat s) % 256 ^ k = hexNat s :=
      Nat.mul_add_mod_of_lt hs
    simp only [decodePairs, hh, hll, decodePairs_of_all k (i + 2) hlen ha.2.2]
    rw [hnat, add_comm k 1, toBe_add, hdiv, ← toBe_mod k (_ + hexNat s), hmod]
    rfl

/-- Two hex digits to a byte, in either case: the bytes of the number the digits denote. -/
theorem hexDecode_of_all {k : ℕ} {s : List Char} (hl : s.length = 2 * k)
    (ha : s.all isHexDigit) : hexDecode s = .ok (toBe k (hexNat s)) := by
  rw [hexDecode, if_neg (by rw [utf8Len_of_all ha]; omega), decodePairs_of_all k 0 hl ha]

/-- A string that decodes is made of hex digits, two to a byte, and its bytes are encoded as the
same digits in lowercase. -/
theorem decodePairs_eq_ok : ∀ {i : ℕ} {s : List Char} {b : List UInt8}, decodePairs i s = .ok b →
    s.all isHexDigit ∧ s.length = 2 * b.length ∧ hexEncode b = s.map Char.toLower
  | _, [], b, h => by
    cases h
    exact ⟨rfl, rfl, rfl⟩
  | i, [c], b, h => by
    rw [decodePairs] at h
    split at h
    · cases h
    · cases h
  | i, c :: d :: s, b, h => by
    rcases hc : hexVal c with _ | x
    · simp [decodePairs, hc] at h
    rcases hd : hexVal d with _ | y
    · simp [decodePairs, hc, hd] at h
    rcases hs : decodePairs (i + 2) s with e | b'
    · simp [decodePairs, hc, hd, hs] at h
    simp only [decodePairs, hc, hd, hs] at h
    cases h
    obtain ⟨ha, hl, he⟩ := decodePairs_eq_ok hs
    have hx := hexVal_lt hc
    have hy := hexVal_lt hd
    have hbyte : (UInt8.ofNat (x * 16 + y)).toNat = x * 16 + y := by
      rw [UInt8.toNat_ofNat']
      omega
    refine ⟨by simp [isHexDigit, hc, hd, ha], by simp only [List.length_cons, hl]; omega, ?_⟩
    simp only [hexEncode] at he
    simp only [hexEncode, List.flatMap_cons, hbyte, he,
      show (x * 16 + y) / 16 = x by omega, show (x * 16 + y) % 16 = y by omega,
      digitChar_hexVal hc, digitChar_hexVal hd, List.map_cons, List.cons_append, List.nil_append]

theorem hexDecode_eq_ok {s : List Char} {b : List UInt8} (h : hexDecode s = .ok b) :
    s.all isHexDigit ∧ s.length = 2 * b.length ∧ hexEncode b = s.map Char.toLower := by
  unfold hexDecode at h
  split at h
  · cases h
  · exact decodePairs_eq_ok h

/-! ## Padded hex -/

theorem length_le_utf8Len (s : List Char) : s.length ≤ utf8Len s := by
  induction s with
  | nil => exact le_rfl
  | cons c s ih =>
    have hc := c.utf8Size_pos
    simp only [utf8Len, List.map_cons, List.sum_cons, List.length_cons] at ih ⊢
    omega

theorem all_padLeft0 (w : ℕ) (s : List Char) :
    (Rust.padLeft0 w s).all isHexDigit = s.all isHexDigit := by
  simp only [Rust.padLeft0, List.all_append, List.all_replicate]
  split_ifs
  · simp
  · simp [show isHexDigit '0' = true from rfl]

theorem hexNat_padLeft0 (w : ℕ) (s : List Char) : hexNat (Rust.padLeft0 w s) = hexNat s := by
  have hzero : ∀ n, hexNat (List.replicate n '0') = 0 := by
    intro n
    induction n with
    | zero => rfl
    | succ n ih =>
      rw [List.replicate_succ', hexNat_snoc, ih]
      rfl
  calc hexNat (Rust.padLeft0 w s)
      = s.foldl (fun n c => n * 16 + (hexVal c).getD 0)
          (hexNat (List.replicate (w - s.length) '0')) := by
        simp only [Rust.padLeft0, hexNat, List.foldl_append]
    _ = hexNat s := by rw [hzero]; rfl

/-- Short hex, padded to `k` bytes: it decodes where it is all digits, to the number they denote. -/
theorem hexDecode_padLeft0 {k : ℕ} {s : List Char} (hl : s.length ≤ 2 * k) (b : List UInt8) :
    hexDecode (Rust.padLeft0 (2 * k) s) = .ok b ↔ s.all isHexDigit ∧ b = toBe k (hexNat s) := by
  have hlen : (Rust.padLeft0 (2 * k) s).length = 2 * k := by
    rw [Rust.padLeft0, List.length_append, List.length_replicate]
    omega
  constructor
  · intro h
    have hall := (hexDecode_eq_ok h).1
    rw [hexDecode_of_all hlen hall, hexNat_padLeft0] at h
    rw [all_padLeft0] at hall
    exact ⟨hall, (Except.ok.inj h).symm⟩
  · rintro ⟨hall, rfl⟩
    rw [hexDecode_of_all hlen (by rwa [all_padLeft0]), hexNat_padLeft0]

/-! ## Encoding and back -/

theorem hexVal_digitChar {v : ℕ} (h : v < 16) : hexVal (Nat.digitChar v) = some v := by
  have key : ∀ v < 16, hexVal (Nat.digitChar v) = some v := by decide
  exact key v h

theorem isUpper_digitChar {v : ℕ} (h : v < 16) : (Nat.digitChar v).isUpper = false := by
  have key : ∀ v < 16, (Nat.digitChar v).isUpper = false := by decide
  exact key v h

@[simp] theorem length_hexEncode (b : List UInt8) : (hexEncode b).length = 2 * b.length := by
  simp [hexEncode, List.length_flatMap, mul_comm]

/-- Every character of an encoding is the digit of a value. -/
theorem mem_hexEncode {b : List UInt8} {c : Char} (h : c ∈ hexEncode b) :
    ∃ v < 16, c = Nat.digitChar v := by
  obtain ⟨x, -, hc⟩ := List.mem_flatMap.1 h
  have hx := x.toNat_lt
  rcases List.mem_pair.1 hc with rfl | rfl
  · exact ⟨x.toNat / 16, by omega, rfl⟩
  · exact ⟨x.toNat % 16, by omega, rfl⟩

theorem all_hexEncode (b : List UInt8) : (hexEncode b).all isHexDigit := by
  rw [List.all_eq_true]
  intro c hc
  obtain ⟨v, hv, rfl⟩ := mem_hexEncode hc
  exact isHexDigit_iff.2 ⟨v, hexVal_digitChar hv⟩

theorem decodePairs_hexEncode (b : List UInt8) (i : ℕ) : decodePairs i (hexEncode b) = .ok b := by
  induction b generalizing i with
  | nil => rfl
  | cons x b ih =>
    have hx := x.toNat_lt
    have hbyte : UInt8.ofNat (x.toNat / 16 * 16 + x.toNat % 16) = x := by
      rw [show x.toNat / 16 * 16 + x.toNat % 16 = x.toNat by omega]
      exact UInt8.ofNat_toNat
    have hcons : hexEncode (x :: b) = Nat.digitChar (x.toNat / 16) ::
        Nat.digitChar (x.toNat % 16) :: hexEncode b := rfl
    rw [hcons, decodePairs, hexVal_digitChar (by omega), hexVal_digitChar (by omega), ih]
    simp only [hbyte]
    rfl

theorem hexDecode_hexEncode (b : List UInt8) : hexDecode (hexEncode b) = .ok b := by
  rw [hexDecode, if_neg, decodePairs_hexEncode]
  rw [utf8Len_of_all (all_hexEncode b), length_hexEncode]
  omega

/-- The digits of an encoding denote the number its bytes do. -/
theorem toBe_hexNat_hexEncode (b : List UInt8) : toBe b.length (hexNat (hexEncode b)) = b := by
  have h := hexDecode_of_all (length_hexEncode b) (all_hexEncode b)
  rw [hexDecode_hexEncode] at h
  exact (Except.ok.inj h).symm

theorem hexNat_toLower (s : List Char) (h : s.all isHexDigit) :
    hexNat (s.map Char.toLower) = hexNat s := by
  induction s using List.reverseRecOn with
  | nil => rfl
  | append_singleton s c ih =>
    simp only [List.all_append, List.all_cons, List.all_nil, Bool.and_true,
      Bool.and_eq_true] at h
    obtain ⟨v, hv⟩ := isHexDigit_iff.1 h.2
    rw [List.map_append, List.map_singleton, hexNat_snoc, hexNat_snoc, ih h.1, hv,
      hexVal_toLower hv]

theorem all_toLower {s : List Char} (h : s.all isHexDigit) :
    (s.map Char.toLower).all isHexDigit := by
  simp only [List.all_map, List.all_eq_true, Function.comp_apply] at h ⊢
  intro c hc
  obtain ⟨v, hv⟩ := isHexDigit_iff.1 (h c hc)
  exact isHexDigit_iff.2 ⟨v, hexVal_toLower hv⟩

end Bytes
