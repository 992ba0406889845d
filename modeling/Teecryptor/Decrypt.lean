import Teecryptor.Lib.Bytes

/-!
# The encryption types and the handle's layout

`decrypt.rs` names the types a ciphertext can be decrypted as, by the numbers cofhe's wire gives
them. `cofhe_layout.rs` says where a handle carries the type and the security zone of its
ciphertext.
-/

namespace Teecryptor

open Bytes

/-- `n` bytes, as `FixedBytes<n>` and `[u8; n]` are. -/
abbrev FixedBytes (n : ℕ) := {l : List UInt8 // l.length = n}

def FixedBytes.zero (n : ℕ) : FixedBytes n := ⟨List.replicate n 0, List.length_replicate⟩

def FixedBytes.ofNat (n v : ℕ) : FixedBytes n := ⟨toBe n v, length_toBe n v⟩

abbrev U256 := BitVec 256

def toBeBytes (u : U256) : FixedBytes 32 := .ofNat 32 u.toNat

/-- The big-endian bytes of an `i32`, negative values in two's complement. -/
def i32ToBeBytes (v : ℤ) : List UInt8 := toBe 4 (v % 2 ^ 32).toNat

/-- Why a ciphertext could not be decrypted. -/
inductive DecryptError
  | unsupportedType (v : ℤ)
  | widthExceeded (gotBits maxBits : ℕ)
  | moduliMismatch
  | dimensionMismatch (ct key : ℕ)
  | packedLenMismatch
  | wrongAtomicPattern
  | deserialize (msg : String)
  | directDecrypt (msg : String)
  deriving DecidableEq, Repr

inductive EncryptionType
  | bool
  | u8
  | u16
  | u32
  | u64
  | u128
  | address
  deriving DecidableEq, Repr

namespace EncryptionType

/-- The number a type has on the wire. -/
def toI32 : EncryptionType → ℤ
  | bool => 0
  | u8 => 2
  | u16 => 3
  | u32 => 4
  | u64 => 5
  | u128 => 6
  | address => 7

def fromI32 (v : ℤ) : Except DecryptError EncryptionType :=
  if v = 0 then .ok bool
  else if v = 2 then .ok u8
  else if v = 3 then .ok u16
  else if v = 4 then .ok u32
  else if v = 5 then .ok u64
  else if v = 6 then .ok u128
  else if v = 7 then .ok address
  else .error (.unsupportedType v)

/-- The width of a plaintext of the type, in bits. -/
def bits : EncryptionType → ℕ
  | bool => 1
  | u8 => 8
  | u16 => 16
  | u32 => 32
  | u64 => 64
  | u128 => 128
  | address => 160

/-- The number of bytes `encode` gives. -/
def width : EncryptionType → ℕ
  | bool | u8 => 1
  | u16 => 2
  | u32 => 4
  | u64 => 8
  | u128 => 16
  | address => 20

/-- The last bytes of the value, as many as the type has: what is sealed to a user. -/
def encode (ty : EncryptionType) (value : U256) : List UInt8 :=
  (toBeBytes value).1.drop (32 - ty.width)

theorem fromI32_eq_ok {v : ℤ} {ty : EncryptionType} : fromI32 v = .ok ty ↔ v = ty.toI32 := by
  constructor
  · intro h
    unfold fromI32 at h
    split_ifs at h <;> cases h <;> assumption
  · rintro rfl
    cases ty <;> rfl

theorem toI32_inj {ty ty' : EncryptionType} (h : ty.toI32 = ty'.toI32) : ty = ty' := by
  have := fromI32_eq_ok.2 h
  rw [fromI32_eq_ok.2 rfl] at this
  exact Except.ok.inj this

theorem encode_eq (ty : EncryptionType) (value : U256) :
    ty.encode value = toBe ty.width value.toNat := by
  have hw : ty.width ≤ 32 := by cases ty <;> decide
  simp only [encode, toBeBytes, FixedBytes.ofNat]
  conv_lhs => rw [show 32 = (32 - ty.width) + ty.width by omega]
  rw [show (32 - ty.width + ty.width) - ty.width = 32 - ty.width by omega]
  exact drop_toBe _ _ _

end EncryptionType

/-! ## The handle's metadata bytes -/

def typeByte : ℕ := 30

def zoneByte : ℕ := 31

def typeMask : UInt8 := 0x7f

/-- The type byte, without the flag of a trivial encryption in its top bit. -/
def handleType (handle : FixedBytes 32) : UInt8 := handle.1.getD typeByte 0 &&& typeMask

def handleZone (handle : FixedBytes 32) : UInt8 := handle.1.getD zoneByte 0

end Teecryptor
