import Mathlib.Data.Nat.Log
import Mathlib.Algebra.Order.Ring.Nat

/-!
# Fallible code and fixed-width arithmetic

A function of the source returns, fails with its own error, or panics. Arithmetic on a fixed-width
unsigned type is on naturals, and a result that does not fit panics in a build with overflow
checks and wraps in one without, so what is proved for every build holds in both.
-/

namespace Rust

inductive Panic
  | overflow
  | divideByZero
  | expect (msg : String)
  deriving DecidableEq, Repr

/-- How a function ends when it does not return. -/
inductive Abort (ε : Type)
  | err (e : ε)
  | panic (p : Panic)
  deriving DecidableEq, Repr

abbrev Exec (ε α : Type) := Except (Abort ε) α

structure Build where
  overflowChecks : Bool
  deriving DecidableEq, Repr

variable {ε α β : Type}

def fail (e : ε) : Exec ε α := .error (.err e)

def panic (p : Panic) : Exec ε α := .error (.panic p)

def ofExcept : Except ε α → Exec ε α
  | .ok a => .ok a
  | .error e => fail e

/-- `Option::context`. -/
def okOr (e : ε) : Option α → Exec ε α
  | some a => .ok a
  | none => fail e

/-- `Result::map_err`. -/
def mapErr {ε' : Type} (f : ε' → ε) : Except ε' α → Exec ε α
  | .ok a => .ok a
  | .error e => fail (f e)

/-- `Result::map_err` on what can also panic. -/
def mapFail {ε' : Type} (f : ε' → ε) : Exec ε' α → Exec ε α
  | .ok a => .ok a
  | .error (.err e) => fail (f e)
  | .error (.panic p) => panic p

/-- `bail!` under a condition. -/
def bailIf (c : Prop) [Decidable c] (e : ε) : Exec ε Unit := if c then fail e else .ok ()

namespace Build

variable (B : Build)

/-- The `w`-bit result of an operation whose exact result is `v`. -/
def fits (w v : ℕ) : Exec ε ℕ :=
  if v < 2 ^ w then .ok v else if B.overflowChecks then panic .overflow else .ok (v % 2 ^ w)

/-- `a - b` on `w` bits. -/
def sub (w a b : ℕ) : Exec ε ℕ :=
  if b ≤ a then .ok (a - b)
  else if B.overflowChecks then panic .overflow else .ok ((a + 2 ^ w - b) % 2 ^ w)

/-- `a << s` on `w` bits: the amount must be below the width, or is taken modulo it. -/
def shl (w a s : ℕ) : Exec ε ℕ :=
  if s < w then .ok ((a <<< s) % 2 ^ w)
  else if B.overflowChecks then panic .overflow else .ok ((a <<< (s % w)) % 2 ^ w)

/-- `a >> s` on `w` bits. -/
def shr (w a s : ℕ) : Exec ε ℕ :=
  if s < w then .ok (a >>> s)
  else if B.overflowChecks then panic .overflow else .ok (a >>> (s % w))

end Build

def rem (a b : ℕ) : Exec ε ℕ := if b = 0 then panic .divideByZero else .ok (a % b)

def div (a b : ℕ) : Exec ε ℕ := if b = 0 then panic .divideByZero else .ok (a / b)

/-- `a` rounded up to a multiple of `b`. -/
def nextMultipleOf (a b : ℕ) : Exec ε ℕ :=
  if b = 0 then panic .divideByZero else .ok ((a + b - 1) / b * b)

def isPowerOfTwo (m : ℕ) : Bool := 2 ^ m.log2 == m

/-- The number of low zero bits of a 64-bit value. -/
def trailingZeros (m : ℕ) : ℕ := ((List.range 64).find? (m.testBit ·)).getD 64

/-- The product, unless it does not fit in 64 bits. -/
def checkedMul (a b : ℕ) : Option ℕ := if a * b < 2 ^ 64 then some (a * b) else none

/-! ## Strings, as their characters -/

/-- The rest of `s` after `p`, if `s` starts with `p`. -/
def stripPrefix (p s : List Char) : Option (List Char) :=
  if p.isPrefixOf s then some (s.drop p.length) else none

/-- `s` without the copies of `0x` it starts with. -/
def trimStart0x : List Char → List Char
  | '0' :: 'x' :: s => trimStart0x s
  | s => s

/-- `s` with `0` before it up to `w` characters. -/
def padLeft0 (w : ℕ) (s : List Char) : List Char := List.replicate (w - s.length) '0' ++ s

/-- A character as its debug format prints it, quoted and with control characters escaped. -/
def debugChar (c : Char) : String :=
  let n := c.toNat
  let body :=
    if n = 0 then "\\0"
    else if n = 9 then "\\t"
    else if n = 10 then "\\n"
    else if n = 13 then "\\r"
    else if n = 39 ∨ n = 92 then String.ofList [Char.ofNat 92, c]
    else if n < 32 ∨ (127 ≤ n ∧ n < 160) ∨ n = 173 then
      "\\u\x7b" ++ String.ofList (Nat.toDigits 16 n) ++ "\x7d"
    else String.ofList [c]
  "'" ++ body ++ "'"

/-- `str::parse` at an unsigned type of `w` bits: decimal digits, after at most one `+`. -/
def parseUnsigned (w : ℕ) (s : String) : Option ℕ :=
  let digits := (stripPrefix ['+'] s.toList).getD s.toList
  if digits = [] ∨ ¬ digits.all Char.isDigit then none
  else
    let n := digits.foldl (fun n c => 10 * n + (c.toNat - 48)) 0
    if n < 2 ^ w then some n else none

theorem stripPrefix_eq_some {p s t : List Char} : stripPrefix p s = some t ↔ s = p ++ t := by
  unfold stripPrefix
  split_ifs with h
  · obtain ⟨r, rfl⟩ := List.isPrefixOf_iff_prefix.1 h
    simp
  · simp only [false_iff]
    rintro rfl
    exact h (List.isPrefixOf_iff_prefix.2 (List.prefix_append p t))

/-! ## Numbers as text -/

theorem parseUnsigned_lt {w n : ℕ} {s : String} (h : parseUnsigned w s = some n) : n < 2 ^ w := by
  unfold parseUnsigned at h
  simp only at h
  split_ifs at h with h₁ h₂
  rwa [Option.some.inj h] at h₂

/-- A number's own text is read as the number. -/
theorem parseUnsigned_toString {w n : ℕ} (h : n < 2 ^ w) :
    parseUnsigned w (toString n) = some n := by
  have htext : (toString n).toList = Nat.toDigits 10 n := Nat.toList_repr
  have hdigit : ∀ c ∈ Nat.toDigits 10 n, c.isDigit :=
    fun c hc => Nat.isDigit_of_mem_toDigits (by omega) le_rfl hc
  have hnil : Nat.toDigits 10 n ≠ [] := Nat.toDigits_ne_nil
  have hplus : stripPrefix ['+'] (Nat.toDigits 10 n) = none := by
    rcases hstrip : stripPrefix ['+'] (Nat.toDigits 10 n) with _ | t
    · rfl
    · have hmem : '+' ∈ Nat.toDigits 10 n := by
        rw [stripPrefix_eq_some.1 hstrip]
        exact List.mem_cons_self
      exact absurd (hdigit '+' hmem) (by decide)
  have hvalue : (Nat.toDigits 10 n).foldl (fun n c => 10 * n + (c.toNat - 48)) 0 = n :=
    Nat.ofDigitChars_ten_toDigits
  unfold parseUnsigned
  simp only [htext, hplus, Option.getD_none, hvalue, hnil, false_or]
  rw [if_neg (by simpa using hdigit), if_pos h]

/-! ## Code that returns -/

@[simp] theorem ok_bind (a : α) (f : α → Exec ε β) : (Except.ok a >>= f) = f a := rfl

@[simp] theorem error_bind (e : Abort ε) (f : α → Exec ε β) :
    ((Except.error e : Exec ε α) >>= f) = .error e := rfl

theorem bind_eq_ok {x : Exec ε α} {f : α → Exec ε β} {b : β} :
    (x >>= f) = .ok b ↔ ∃ a, x = .ok a ∧ f a = .ok b := by
  rcases x with e | a
  · simp
  · simp

theorem okOr_eq_ok {e : ε} {x : Option α} {a : α} : okOr e x = .ok a ↔ x = some a := by
  rcases x with _ | b
  · simp [okOr, fail]
  · simp [okOr]

theorem mapErr_eq_ok {ε' : Type} {f : ε' → ε} {x : Except ε' α} {a : α} :
    mapErr f x = .ok a ↔ x = .ok a := by
  rcases x with e | b
  · simp [mapErr, fail]
  · simp [mapErr]

theorem mapFail_eq_ok {ε' : Type} {f : ε' → ε} {x : Exec ε' α} {a : α} :
    mapFail f x = .ok a ↔ x = .ok a := by
  rcases x with (e | p) | b
  · simp [mapFail, fail]
  · simp [mapFail, panic]
  · simp [mapFail]

theorem bailIf_eq_ok {c : Prop} [Decidable c] {e : ε} {u : Unit} :
    bailIf c e = .ok u ↔ ¬ c := by
  by_cases h : c
  · simp [bailIf, h, fail]
  · simp [bailIf, h]

/-! ## Code that does not panic -/

/-- The code returns or fails with its own error. -/
def NoPanic (r : Exec ε α) : Prop := ∀ p, r ≠ .error (.panic p)

theorem noPanic_ok (a : α) : NoPanic (.ok a : Exec ε α) := by simp [NoPanic]

theorem noPanic_fail (e : ε) : NoPanic (fail e : Exec ε α) := by simp [NoPanic, fail]

theorem noPanic_okOr (e : ε) (x : Option α) : NoPanic (okOr e x) := by
  cases x <;> simp [NoPanic, okOr, fail]

theorem noPanic_mapErr {ε' : Type} (f : ε' → ε) (x : Except ε' α) : NoPanic (mapErr f x) := by
  cases x <;> simp [NoPanic, mapErr, fail]

theorem noPanic_bailIf (c : Prop) [Decidable c] (e : ε) : NoPanic (bailIf c e) := by
  by_cases h : c <;> simp [NoPanic, bailIf, h, fail]

theorem NoPanic.mapFail {ε' : Type} {x : Exec ε' α} (h : NoPanic x) (f : ε' → ε) :
    NoPanic (mapFail f x) := by
  rcases x with (e | p) | a
  · simp [NoPanic, Rust.mapFail, fail]
  · exact absurd rfl (h p)
  · simp [NoPanic, Rust.mapFail]

theorem NoPanic.bind {x : Exec ε α} {f : α → Exec ε β} (hx : NoPanic x)
    (hf : ∀ a, NoPanic (f a)) : NoPanic (x >>= f) := by
  rcases x with e | a
  · exact fun p hp => hx p (by simpa using hp)
  · exact hf a

theorem NoPanic.guarded {x : Exec ε α} {c : Prop} [Decidable c] (hx : NoPanic x) (e : ε) :
    NoPanic (if c then fail e else x) := by
  split_ifs
  · exact noPanic_fail e
  · exact hx

/-! ## Code that returns one value, under one condition -/

/-- The code returns `a` where `P` holds, and fails with an error of its own elsewhere. -/
structure ReturnsIff (r : Exec ε α) (P : Prop) (a : α) : Prop where
  returns : P → r = .ok a
  fails : ¬ P → ∃ e, r = fail e

namespace ReturnsIff

variable {r : Exec ε α} {P Q : Prop} {a : α}

theorem of_ok (a : α) : ReturnsIff (.ok a : Exec ε α) True a := by
  exact ⟨fun _ => rfl, fun h => absurd trivial h⟩

theorem congr (h : ReturnsIff r P a) (hPQ : P ↔ Q) : ReturnsIff r Q a := by
  rwa [← propext hPQ]

theorem noPanic (h : ReturnsIff r P a) : NoPanic r := by
  by_cases hP : P
  · rw [h.returns hP]
    exact noPanic_ok a
  · obtain ⟨e, he⟩ := h.fails hP
    rw [he]
    exact noPanic_fail e

theorem eq_ok (h : ReturnsIff r P a) {b : α} : r = .ok b ↔ P ∧ b = a := by
  by_cases hP : P
  · simp [h.returns hP, hP, eq_comm]
  · obtain ⟨e, he⟩ := h.fails hP
    simp [he, fail, hP]

/-- An early return of an error. -/
theorem guarded {c : Prop} [Decidable c] (h : ReturnsIff r P a) (e : ε) :
    ReturnsIff (if c then fail e else r) (¬ c ∧ P) a := by
  by_cases hc : c
  · simp only [if_pos hc]
    exact ⟨fun hP => absurd hc hP.1, fun _ => ⟨e, rfl⟩⟩
  · simp only [if_neg hc]
    exact h.congr (by simp [hc])

theorem bind {f : α → Exec ε β} {b : β} (h : ReturnsIff r P a) (hf : ReturnsIff (f a) Q b) :
    ReturnsIff (r >>= f) (P ∧ Q) b := by
  by_cases hP : P
  · rw [h.returns hP, ok_bind]
    exact hf.congr (by simp [hP])
  · obtain ⟨e, he⟩ := h.fails hP
    exact ⟨fun hPQ => absurd hPQ.1 hP, fun _ => ⟨e, by rw [he]; rfl⟩⟩

end ReturnsIff

/-! ## Where nothing overflows -/

theorem fits_of_lt (B : Build) {w v : ℕ} (h : v < 2 ^ w) : (B.fits w v : Exec ε ℕ) = .ok v :=
  if_pos h

theorem fits_eq_ok {B : Build} {w v u : ℕ} :
    (B.fits w v : Exec ε ℕ) = .ok u ↔ (v < 2 ^ w ∨ B.overflowChecks = false) ∧ u = v % 2 ^ w := by
  unfold Build.fits
  split_ifs with hlt hchecks
  · simp only [hlt, true_or, true_and, Nat.mod_eq_of_lt hlt, Except.ok.injEq, eq_comm]
  · simp only [hlt, hchecks, panic, reduceCtorEq, Bool.true_eq_false, or_self, false_and]
  · simp only [hlt, Bool.eq_false_of_not_eq_true hchecks, false_or, true_and, Except.ok.injEq,
      eq_comm]

theorem sub_of_le (B : Build) {w a b : ℕ} (h : b ≤ a) : (B.sub w a b : Exec ε ℕ) = .ok (a - b) :=
  if_pos h

theorem shl_of_lt (B : Build) {w a s : ℕ} (h : s < w) (ha : a <<< s < 2 ^ w) :
    (B.shl w a s : Exec ε ℕ) = .ok (a <<< s) := by
  rw [Build.shl, if_pos h, Nat.mod_eq_of_lt ha]

theorem shr_of_lt (B : Build) {w a s : ℕ} (h : s < w) : (B.shr w a s : Exec ε ℕ) = .ok (a >>> s) :=
  if_pos h

theorem rem_of_pos {a b : ℕ} (h : 0 < b) : (rem a b : Exec ε ℕ) = .ok (a % b) :=
  if_neg h.ne'

theorem div_of_pos {a b : ℕ} (h : 0 < b) : (div a b : Exec ε ℕ) = .ok (a / b) :=
  if_neg h.ne'

theorem rem_eq_ok {a b c : ℕ} : (rem a b : Exec ε ℕ) = .ok c ↔ 0 < b ∧ c = a % b := by
  unfold rem
  split_ifs with h
  · simp [h, panic]
  · simp only [Except.ok.injEq]
    exact ⟨fun hc => ⟨Nat.pos_of_ne_zero h, hc.symm⟩, fun hc => hc.2.symm⟩

theorem isPowerOfTwo_iff {m : ℕ} : isPowerOfTwo m = true ↔ ∃ b, m = 2 ^ b := by
  simp only [isPowerOfTwo, beq_iff_eq]
  constructor
  · exact fun h => ⟨_, h.symm⟩
  · rintro ⟨b, rfl⟩
    rw [Nat.log2_two_pow]

theorem trailingZeros_two_pow {b : ℕ} (h : b < 64) : trailingZeros (2 ^ b) = b := by
  have hf : (List.range 64).find? ((2 ^ b).testBit ·) = some b := by
    rw [List.find?_range_eq_some]
    refine ⟨by simp, by simpa using h, ?_⟩
    intro j hj
    simp only [Nat.testBit_two_pow, Bool.not_eq_eq_eq_not, Bool.not_true, decide_eq_false_iff_not]
    omega
  rw [trailingZeros, hf, Option.getD_some]

end Rust
