import Teecryptor.Effects

/-!
# Sealing a plaintext to a key

`seal.rs`: a plaintext is boxed to the recipient's key under a fresh ephemeral key and nonce. The
box is dryoc's, a parameter.
-/

namespace Teecryptor

structure SealedOutput where
  data : List UInt8
  publicKey : List UInt8
  nonce : List UInt8
  deriving DecidableEq

inductive SealError
  | badKeyLength (n : ℕ)
  | degenerateKey
  | encryptFailed (msg : String)
  deriving DecidableEq, Repr

/-- `DryocBox::encrypt_to_vecbox`: plaintext, nonce, recipient's key and sender's secret key. -/
abbrev CryptoBox :=
  List UInt8 → FixedBytes 24 → List UInt8 → FixedBytes 32 → Except String (List UInt8)

def sealToUser (box : CryptoBox) (recipientPublicKey plaintext : List UInt8) :
    Attempt SealError SealedOutput :=
  if recipientPublicKey.length ≠ 32 then throw (.badKeyLength recipientPublicKey.length)
  else if recipientPublicKey.all (· == 0) then throw .degenerateKey
  else do
    let ephemeralKeypair ← attempt .keyPairGen
    let nonce ← attempt .nonceGen
    match box plaintext nonce recipientPublicKey ephemeralKeypair.secretKey with
    | .error e => throw (.encryptFailed e)
    | .ok data => return ⟨data, ephemeralKeypair.publicKey.1, nonce.1⟩

end Teecryptor
