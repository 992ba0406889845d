import Teecryptor.Decrypt

/-!
# Signing a response

`signing/`: the bytes a response's signature is over, and the signature itself. The k256 key is an
oracle that signs a hash; keccak256 is a parameter.
-/

namespace Teecryptor

open Bytes Rust

inductive SigningError
  | invalidKey (msg : String)
  | signingFailed (msg : String)
  | keyFileError (msg : String)
  | hexDecodeError (msg : String)
  deriving DecidableEq, Repr

inductive SignatureVFormat
  | raw
  | evm
  deriving DecidableEq, Repr

def evmRecoveryIdOffset : UInt8 := 27

def SignatureVFormat.convertV (f : SignatureVFormat) (rawV : UInt8) : UInt8 :=
  match f with
  | .raw => rawV
  | .evm => rawV + evmRecoveryIdOffset

/-- `"evm"` in any case, or the raw format. -/
def SignatureVFormat.fromStr (s : String) : SignatureVFormat :=
  if s.toList.map Char.toLower = ['e', 'v', 'm'] then .evm else .raw

/-- The order of the secp256k1 group. -/
def secp256k1Order : ℕ :=
  0xfffffffffffffffffffffffffffffffebaaedce6af48a03bbfd25e8cd0364141

structure Signature where
  r : ℕ
  s : ℕ
  deriving DecidableEq, Repr

structure RecoveryId where
  isYOdd : Bool
  isXReduced : Bool
  deriving DecidableEq, Repr

def RecoveryId.toByte (id : RecoveryId) : UInt8 :=
  (if id.isXReduced then 2 else 0) + if id.isYOdd then 1 else 0

namespace Signature

def isHigh (sig : Signature) : Bool := secp256k1Order / 2 < sig.s

/-- The signature with the low one of `s` and `-s`, if that is another one. -/
def normalizeS (sig : Signature) : Option Signature :=
  if sig.isHigh then some { sig with s := secp256k1Order - sig.s } else none

def toBytes (sig : Signature) : List UInt8 := toBe 32 sig.r ++ toBe 32 sig.s

end Signature

/-- A signing key, as what it signs a hash with. -/
structure Signer where
  signingKey : FixedBytes 32 → Except String (Signature × RecoveryId)

namespace Signer

def signPrehash (signer : Signer) (hash : FixedBytes 32) :
    Except SigningError (Signature × RecoveryId) := do
  let (sig, recid) ← (signer.signingKey hash).mapError .signingFailed
  let isYOdd := recid.isYOdd ^^ sig.isHigh
  let sigLow := sig.normalizeS.getD sig
  return (sigLow, ⟨isYOdd, recid.isXReduced⟩)

def signPrehashToHexWithFormat (signer : Signer) (hash : FixedBytes 32)
    (vFormat : SignatureVFormat) : Except SigningError String := do
  let (sig, recid) ← signer.signPrehash hash
  return String.ofList (hexEncode (sig.toBytes ++ [vFormat.convertV recid.toByte]))

end Signer

/-- The digits of a handle, after one `0x` or `0X`. -/
def handleDigits (raw : String) : List Char :=
  ((stripPrefix ['0', 'x'] raw.toList).orElse fun _ => stripPrefix ['0', 'X'] raw.toList).getD
    raw.toList

/-- A handle's 32 bytes from its hex, with `0x`, `0X` or no prefix. -/
def parseCtHash (hexStr : String) : Except SigningError (FixedBytes 32) :=
  match hexDecode (handleDigits hexStr) with
  | .error e => .error (.hexDecodeError (toString e))
  | .ok bytes =>
    if h : bytes.length = 32 then .ok ⟨bytes, h⟩
    else .error (.hexDecodeError s!"ct_hash must be 32 bytes, got {bytes.length}")

theorem parseCtHash_of_hexDecode {s : String} {b : FixedBytes 32}
    (h : hexDecode (handleDigits s) = .ok b.1) : parseCtHash s = .ok b := by
  simp [parseCtHash, h, b.2]

/-- What both layouts end with: the type, the chain and the handle. -/
def preimageTail (encryptionType : ℤ) (chainId : UInt64) (ctHash : FixedBytes 32) : List UInt8 :=
  i32ToBeBytes encryptionType ++ toBe 8 chainId.toNat ++ ctHash.1

/-- The bytes a decrypt result is signed as. -/
def decryptPreimage (result : List UInt8) (encryptionType : ℤ) (chainId : UInt64)
    (ctHash : FixedBytes 32) : List UInt8 :=
  result ++ preimageTail encryptionType chainId ctHash

/-- The bytes a sealed output is signed as. -/
def sealoutputPreimage (sealed ephemeralPk nonce : List UInt8) (encryptionType : ℤ)
    (chainId : UInt64) (ctHash : FixedBytes 32) : List UInt8 :=
  sealed ++ ephemeralPk ++ nonce ++ preimageTail encryptionType chainId ctHash

section Service

variable (keccak256 : List UInt8 → FixedBytes 32) (signer : Signer)

def signDecrypt (plaintext : U256) (encryptionType : ℤ) (chainId : UInt64) (ctHash : String)
    (vFormat : SignatureVFormat) : Except SigningError String := do
  let ct ← parseCtHash ctHash
  let preimage := decryptPreimage (toBeBytes plaintext).1 encryptionType chainId ct
  signer.signPrehashToHexWithFormat (keccak256 preimage) vFormat

def signSealoutput (sealed ephemeralPk nonce : List UInt8) (encryptionType : ℤ)
    (chainId : UInt64) (ctHash : String) (vFormat : SignatureVFormat) :
    Except SigningError String := do
  let ct ← parseCtHash ctHash
  let preimage := sealoutputPreimage sealed ephemeralPk nonce encryptionType chainId ct
  signer.signPrehashToHexWithFormat (keccak256 preimage) vFormat

end Service

end Teecryptor
