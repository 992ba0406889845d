import Teecryptor.Decrypt
import Teecryptor.Lib.Rust

/-!
# Decrypting a compressed ciphertext

`direct_decrypt.rs`: a modulus-switched compressed ciphertext is read into mirrors of tfhe's
structures, every field of which ct-server controls, and each block is decrypted by a dot product
with the small LWE key, rounded to the cleartext space. What tfhe and bincode do with bytes is a
parameter.
-/

namespace Teecryptor

open Rust

inductive PBSOrder
  | keyswitchBootstrap
  | bootstrapKeyswitch
  deriving DecidableEq, Repr

inductive AtomicPatternKind
  | standard (order : PBSOrder)
  | keySwitch32
  deriving DecidableEq, Repr

/-- tfhe's `PackedIntegers<u64>`: `initialLen` coefficients of `logModulus` bits. -/
structure PackedIntegers where
  packedCoeffs : List UInt64
  logModulus : ℕ
  initialLen : ℕ
  deriving DecidableEq, Repr

structure ClassicMsCtMirror where
  packedIntegers : PackedIntegers
  lweDimension : ℕ
  deriving DecidableEq, Repr

inductive InternalMirror
  | classic (ct : ClassicMsCtMirror)
  | multiBit
  deriving DecidableEq, Repr

structure BlockMirror where
  compressedModulusSwitchedLweCiphertext : InternalMirror
  messageModulus : UInt64
  carryModulus : UInt64
  atomicPattern : AtomicPatternKind
  deriving DecidableEq, Repr

/-- The blocks of a radix ciphertext. A block takes 64 bytes and more of a `Vec`. -/
structure GenericMirror where
  pairedBlocks : List BlockMirror
  lastBlock : Option BlockMirror
  len_lt : pairedBlocks.length < 2 ^ 57
  deriving DecidableEq, Repr

inductive RadixMirror
  | seeded
  | modulusSwitched (ms : GenericMirror)
  deriving DecidableEq, Repr

inductive InnerBoolMirror
  | seeded
  | modulusSwitched (block : BlockMirror)
  deriving DecidableEq, Repr

/-- The small LWE key and the moduli of the client key it comes from. A `Vec<u64>` takes at most
`isize::MAX` bytes. -/
structure DirectDecryptKey where
  smallLweKey : List UInt64
  messageModulus : UInt64
  carryModulus : UInt64
  len_lt : smallLweKey.length < 2 ^ 60

/-- tfhe and bincode as the decoder calls them, and the build it runs in. -/
structure Tfhe where
  build : Build
  Ct : Type
  safeDeserialize : EncryptionType → List UInt8 → ℕ → Except String Ct
  bincodeSerialize : Ct → Except String (List UInt8)
  bincodeUint : List UInt8 → Except String RadixMirror
  bincodeBool : List UInt8 → Except String InnerBoolMirror
  unpack : PackedIntegers → List UInt64

/-- 1 MiB. -/
def ctSizeLimit : ℕ := 1 <<< 20

/-- The name of the type a ciphertext is deserialized as. -/
def ctLabel : EncryptionType → String
  | .bool => "CompressedFheBool"
  | .u8 => "CompressedFheUint8"
  | .u16 => "CompressedFheUint16"
  | .u32 => "CompressedFheUint32"
  | .u64 => "CompressedFheUint64"
  | .u128 => "CompressedFheUint128"
  | .address => "CompressedFheUint160"

variable (T : Tfhe)

/-- The blocks of a serialized ciphertext: tfhe reads its own format, and the mirror is read from
the value encoded again with bincode. -/
def toMirror {M : Type} (read : List UInt8 → Except String M) (ty : EncryptionType)
    (bytes : List UInt8) : Except DecryptError M := do
  let label := ctLabel ty
  let ct ← (T.safeDeserialize ty bytes ctSizeLimit).mapError fun e => .deserialize s!"{label}: {e}"
  let plain ← (T.bincodeSerialize ct).mapError fun e => .directDecrypt s!"{label} re-encode: {e}"
  (read plain).mapError fun e => .directDecrypt s!"{label} mirror layout: {e}"

/-- The checks on a block before it is unpacked: its moduli and pattern are the key's, and its
packed structure is exactly that of a mask and a body under the key. -/
def checkBlock (key : DirectDecryptKey) (block : BlockMirror) :
    Exec DecryptError PackedIntegers := do
  if block.messageModulus ≠ key.messageModulus ∨ block.carryModulus ≠ key.carryModulus then
    fail .moduliMismatch
  if block.atomicPattern ≠ .standard .keyswitchBootstrap then
    fail .wrongAtomicPattern
  match block.compressedModulusSwitchedLweCiphertext with
  | .multiBit => fail (.directDecrypt "multi-bit compressed ct unsupported")
  | .classic ct =>
    let lweDim := ct.lweDimension
    if lweDim ≠ key.smallLweKey.length then
      fail (.dimensionMismatch lweDim key.smallLweKey.length)
    let logMod := ct.packedIntegers.logModulus
    if ¬ (1 ≤ logMod ∧ logMod < 64) then
      fail (.directDecrypt s!"invalid modulus log {logMod}")
    let initialLen := ct.packedIntegers.initialLen
    let expectedLen ← T.build.fits 64 (lweDim + 1)
    if initialLen ≠ expectedLen then
      fail .packedLenMismatch
    match checkedMul initialLen logMod with
    | none => fail .packedLenMismatch
    | some bits =>
      if ct.packedIntegers.packedCoeffs.length ≠ (bits + 63) / 64 then
        fail .packedLenMismatch
      return ct.packedIntegers

/-- The dot product of the mask with the key, on 64 bits. -/
def dot (mask sk : List UInt64) : UInt64 := (List.zipWith (· * ·) mask sk).foldl (· + ·) 0

/-- The value of a mask and a body: what is left of the body without the mask's dot product with
the key, on `logMod` bits, rounded to the nearest level of the cleartext space. -/
def decodeLwe (key : DirectDecryptKey) (logMod : ℕ) (coeffs : List UInt64) :
    Exec DecryptError (ℕ × ℕ) :=
  match coeffs.getLast? with
  | none => panic (.expect "initial_len >= 1 (== lwe_dim + 1) verified above")
  | some body => do
    let mask := coeffs.dropLast
    let top ← T.build.shl 64 1 logMod
    let modulusMask ← T.build.sub 64 top 1
    let dec := (body - dot mask key.smallLweKey) &&& UInt64.ofNat modulusMask
    let msgMod := key.messageModulus.toNat
    let carryMod := key.carryModulus.toNat
    let twice ← T.build.fits 64 (2 * msgMod)
    let space ← T.build.fits 64 (twice * carryMod)
    let scaled ← T.build.fits 128 (dec.toNat * space)
    let shift ← T.build.sub 64 logMod 1
    let half ← T.build.shl 128 1 shift
    let sum ← T.build.fits 128 (scaled + half)
    let level ← T.build.shr 128 sum logMod
    let m ← rem (level % 2 ^ 64) space
    return (m, msgMod)

/-- One block: the raw value, padding bit included, and the key's message modulus. -/
def decodeBlock (key : DirectDecryptKey) (block : BlockMirror) : Exec DecryptError (ℕ × ℕ) := do
  let packed ← checkBlock T key block
  decodeLwe T key packed.logModulus (T.unpack packed)

/-- The two digits of a paired block. -/
def decodePair (key : DirectDecryptKey) (block : BlockMirror) : Exec DecryptError (List ℕ) := do
  let (m, msgMod) ← decodeBlock T key block
  let low ← rem m msgMod
  let high ← div m msgMod
  let high ← rem high msgMod
  return [low, high]

/-- The digit of a block left unpaired. -/
def decodeLast (key : DirectDecryptKey) (block : BlockMirror) : Exec DecryptError (List ℕ) := do
  let (m, msgMod) ← decodeBlock T key block
  let digit ← rem m msgMod
  return [digit]

/-- The digits of the paired blocks, in order. -/
def decodePairs (key : DirectDecryptKey) : List BlockMirror → Exec DecryptError (List ℕ)
  | [] => return []
  | block :: blocks => do
    let ds ← decodePair T key block
    let rest ← decodePairs key blocks
    return ds ++ rest

/-- The value of little-endian digits of `bits` bits each, from the digit at `i` on. -/
def orDigits (bits : ℕ) : ℕ → List ℕ → U256 → Exec DecryptError U256
  | _, [], value => return value
  | i, d :: ds, value => do
    let shift ← T.build.fits 64 (bits * i)
    orDigits bits (i + 1) ds (value ||| (BitVec.ofNat 256 d <<< shift))

/-- The digits of a radix ciphertext, the odd trailing one last. -/
def decodeDigits (key : DirectDecryptKey) (radix : GenericMirror) :
    Exec DecryptError (List ℕ) := do
  let paired ← decodePairs T key radix.pairedBlocks
  match radix.lastBlock with
  | none => return paired
  | some block =>
    let last ← decodeLast T key block
    return paired ++ last

/-- The value of the digits, unless there are none or more than the declared type has. -/
def joinDigits (bitsPerDigit : ℕ) (digits : List ℕ) (maxBits : ℕ) : Exec DecryptError U256 :=
  if digits = [] then
    fail (.directDecrypt "empty radix ciphertext")
  else
    match checkedMul bitsPerDigit digits.length with
    | none => fail (.directDecrypt "digit width overflow")
    | some totalBits => do
      let limit ← nextMultipleOf maxBits bitsPerDigit
      if totalBits > limit then
        fail (.widthExceeded totalBits maxBits)
      else
        orDigits T bitsPerDigit 0 digits 0

def decodeRadix (key : DirectDecryptKey) (radix : GenericMirror) (maxBits : ℕ) :
    Exec DecryptError U256 :=
  let msgMod := key.messageModulus.toNat
  if ¬ isPowerOfTwo msgMod ∨ msgMod < 2 then
    fail (.directDecrypt s!"invalid message modulus {msgMod}")
  else do
    let digits ← decodeDigits T key radix
    joinDigits T (trailingZeros msgMod) digits maxBits

def decryptUint (key : DirectDecryptKey) (ty : EncryptionType) (bytes : List UInt8)
    (maxBits : ℕ) : Exec DecryptError U256 := do
  match ← ofExcept (toMirror T T.bincodeUint ty bytes) with
  | .modulusSwitched ms => decodeRadix T key ms maxBits
  | .seeded => fail (.directDecrypt "seeded compressed ct: not an engine-stored form")

def decryptBool (key : DirectDecryptKey) (bytes : List UInt8) : Exec DecryptError U256 := do
  match ← ofExcept (toMirror T T.bincodeBool .bool bytes) with
  | .modulusSwitched block =>
    let (m, msgMod) ← decodeBlock T key block
    let digit ← rem m msgMod
    return if digit ≠ 0 then 1 else 0
  | .seeded => fail (.directDecrypt "seeded compressed bool: not an engine-stored form")

def decryptCompressed (key : DirectDecryptKey) (ty : EncryptionType) (bytes : List UInt8) :
    Exec DecryptError U256 :=
  match ty with
  | .bool => decryptBool T key bytes
  | ty => decryptUint T key ty bytes ty.bits

end Teecryptor
