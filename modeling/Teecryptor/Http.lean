import Teecryptor.CtSource
import Teecryptor.Commitment
import Teecryptor.DirectDecrypt
import Teecryptor.Seal
import Teecryptor.Signing

/-!
# Requests, responses and the server's configuration

The data of `http.rs`: what a request carries, how each API version encodes an error and a
retryable condition, a handle in canonical form, and the state the handlers are built with.
-/

namespace Teecryptor

open Bytes Rust

/-! ## Responses -/

structure ErrorResponse where
  error : String
  errorMessage : Option String
  deriving DecidableEq, Repr

structure DecryptResponse where
  decrypted : List UInt8
  signature : String
  encryptionType : ℤ
  errorMessage : Option String
  deriving DecidableEq

structure UserSealedResponse where
  data : List UInt8
  publicKey : List UInt8
  nonce : List UInt8
  deriving DecidableEq

structure SealOutputResponse where
  sealed : Option UserSealedResponse
  signature : String
  encryptionType : ℤ
  errorMessage : Option String
  deriving DecidableEq

structure V2DecryptSubmitResponse where
  requestId : String
  decrypted : Option (List UInt8)
  signature : Option String
  encryptionType : Option ℤ
  deriving DecidableEq

structure V2SealOutputSubmitResponse where
  requestId : String
  sealedData : Option (List UInt8)
  ephemeralPublicKey : Option (List UInt8)
  nonce : Option (List UInt8)
  signature : Option String
  encryptionType : Option ℤ
  deriving DecidableEq

inductive RequestStatusHttp
  | processing
  | completed
  deriving DecidableEq, Repr

structure V2DecryptStatusResponse where
  requestId : String
  status : RequestStatusHttp
  submittedAt : String
  completedAt : Option String
  isSucceed : Option Bool
  decrypted : Option (List UInt8)
  signature : Option String
  encryptionType : Option ℤ
  errorMessage : Option String
  deriving DecidableEq

structure V2SealOutputStatusResponse where
  requestId : String
  status : RequestStatusHttp
  submittedAt : String
  completedAt : Option String
  isSucceed : Option Bool
  sealed : Option UserSealedResponse
  signature : Option String
  encryptionType : Option ℤ
  errorMessage : Option String
  deriving DecidableEq

inductive Body
  | empty
  | error (r : ErrorResponse)
  | decrypt (r : DecryptResponse)
  | sealOutput (r : SealOutputResponse)
  | v2DecryptSubmit (r : V2DecryptSubmitResponse)
  | v2SealOutputSubmit (r : V2SealOutputSubmitResponse)
  | v2DecryptStatus (r : V2DecryptStatusResponse)
  | v2SealOutputStatus (r : V2SealOutputStatusResponse)
  deriving DecidableEq

/-- A response: its status, the retry-reason header, the body, and the metric outcome attached to
it. -/
structure Response where
  status : ℕ
  retryReason : Option String
  body : Body
  outcome : Option String
  deriving DecidableEq

/-- A 200 with a JSON body. -/
def Response.okJson (body : Body) : Response := ⟨200, none, body, none⟩

inductive RetryReason
  | overloaded
  | ctNotReady
  | commitmentPending
  deriving DecidableEq, Repr

namespace RetryReason

def asStr : RetryReason → String
  | overloaded => "overloaded"
  | ctNotReady => "ct_not_ready"
  | commitmentPending => "commitment_pending"

def v1Status : RetryReason → ℕ
  | overloaded => 503
  | ctNotReady => 428
  | commitmentPending => 428

end RetryReason

/-- The status axum refuses a request body with. -/
inductive JsonRejection
  | jsonSyntaxError
  | jsonDataError
  | missingJsonContentType
  | lengthLimit
  | unknownBodyError
  deriving DecidableEq, Repr

def JsonRejection.status : JsonRejection → ℕ
  | jsonSyntaxError => 400
  | jsonDataError => 422
  | missingJsonContentType => 415
  | lengthLimit => 413
  | unknownBodyError => 400

inductive ApiVersion
  | v1
  | v2
  deriving DecidableEq, Repr

def retryable204 (reason : RetryReason) : Response :=
  ⟨204, some reason.asStr, .empty, some reason.asStr⟩

namespace ApiVersion

/-- A terminal error: the status and the code, which v1 repeats as the message. -/
def err (api : ApiVersion) (status : ℕ) (code : String) : Response :=
  ⟨status, none, .error ⟨code, if api = v1 then some code else none⟩, some code⟩

/-- A condition the client can retry on. -/
def retryable (api : ApiVersion) (reason : RetryReason) : Response :=
  match api with
  | v2 => retryable204 reason
  | v1 => api.err reason.v1Status reason.asStr

def reject (api : ApiVersion) (rejection : JsonRejection) : Response :=
  api.err rejection.status "rejected"

end ApiVersion

/-! ## Requests -/

structure DecryptRequest where
  ctTempkey : String
  hostChainId : UInt64
  acp : Option AcpData
  deriving DecidableEq

structure SealOutputRequest where
  ctTempkey : String
  hostChainId : UInt64
  acp : Option AcpData
  deriving DecidableEq

/-- The `x-signature-v-format` header's value, if it is there and visible ASCII. -/
abbrev HeaderMap := Option String

def parseVFormat (headers : HeaderMap) : SignatureVFormat :=
  (headers.map SignatureVFormat.fromStr).getD .raw

/-- A ciphertext handle in canonical form, with the number the on-chain calls take. Its text and
its number name the same 32 bytes. -/
structure Handle where
  hex : String
  u256 : U256
  agrees : parseCtHash hex = .ok (toBeBytes u256)

def Handle.asStr (h : Handle) : String := h.hex

theorem handleDigits_canonical (digits : List Char) :
    handleDigits (String.ofList ('0' :: 'x' :: digits)) = digits := by
  simp [handleDigits, stripPrefix]

/-- Lowercase digits after `0x` are read back as the number they denote. -/
theorem parseCtHash_canonical {digits : List Char} (hl : digits.length = 64)
    (ha : digits.all isHexDigit) :
    parseCtHash (String.ofList ('0' :: 'x' :: digits.map Char.toLower))
      = .ok (toBeBytes (BitVec.ofNat 256 (hexNat digits))) := by
  have hlt : hexNat digits < 2 ^ 256 := by
    have := hexNat_lt digits
    rwa [hl, show (16 : ℕ) ^ 64 = 2 ^ 256 by norm_num] at this
  apply parseCtHash_of_hexDecode
  rw [handleDigits_canonical, hexDecode_of_all (k := 32) (by simpa using hl) (all_toLower ha),
    hexNat_toLower _ ha]
  simp only [toBeBytes, FixedBytes.ofNat, BitVec.toNat_ofNat, Nat.mod_eq_of_lt hlt]

/-- The handle of 64 hex digits. -/
def Handle.ofDigits (digits : List Char) (hl : digits.length = 64) (ha : digits.all isHexDigit) :
    Handle where
  hex := String.ofList ('0' :: 'x' :: digits.map Char.toLower)
  u256 := .ofNat 256 (hexNat digits)
  agrees := parseCtHash_canonical hl ha

/-- Exactly 64 hex digits, with or without a prefix. -/
def Handle.parse (raw : String) : Option Handle :=
  let digits := handleDigits raw
  if h : utf8Len digits = 64 ∧ digits.all isHexDigit then
    some (.ofDigits digits ((utf8Len_of_all h.2).symm.trans h.1) h.2)
  else none

theorem Handle.parse_of_digits {raw : String} {digits : List Char} (hd : handleDigits raw = digits)
    (hl : digits.length = 64) (ha : digits.all isHexDigit) :
    Handle.parse raw = some (.ofDigits digits hl ha) := by
  subst hd
  exact dif_pos ⟨(utf8Len_of_all ha).trans hl, ha⟩

/-! ## Configuration -/

/-- tfhe's client key, by its serialized bytes. -/
structure ClientKey where
  bytes : List UInt8

structure KeyStore where
  zone0 : ClientKey
  zone0Direct : DirectDecryptKey

def KeyStore.clientKey (keys : KeyStore) (zone : ℤ) : Option ClientKey :=
  if zone = 0 then some keys.zone0 else none

def KeyStore.directKey (keys : KeyStore) (zone : ℤ) : Option DirectDecryptKey :=
  if zone = 0 then some keys.zone0Direct else none

/-- The library code the handlers call. -/
structure Crates where
  tfhe : Tfhe
  keccak256 : List UInt8 → FixedBytes 32
  parseAddress : AddressParser
  parseGetCtResponse : List UInt8 → Except String GetCtResponse
  cryptoBox : CryptoBox

/-- `calc_commitment`: the commit hash of a ciphertext's bytes. -/
@[reducible] def calcCommitment (crates : Crates) (data : List UInt8) : FixedBytes 32 :=
  crates.keccak256 data

structure AppState where
  crates : Crates
  keys : KeyStore
  acpVerifier : Option ChainsVerifierConfig
  commitmentVerifier : Option CommitmentConfig
  signer : Option Signer

end Teecryptor
