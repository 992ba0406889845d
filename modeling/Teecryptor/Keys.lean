import Teecryptor.Boot
import Teecryptor.Lib.Text

/-!
# Loading the keys

What the boot's `load_keys` does: for each partner an attestation token for the partner's audience,
from the launcher's socket (`tdx_common/attestation.rs`), is exchanged for a token that reads the
partner's secret (`boot.rs`); the tokens go with their partners to `cofhe-keys`, which reconstructs
the secret (`main.rs`); and the secret becomes the key handles (`key_source.rs`, `keys.rs`). The
socket, the token exchange, the metadata server and `cofhe-keys` answer arbitrarily.
-/

namespace Teecryptor.Keys

open Interact Bytes Rust Text

/-- What awaiting a call under a timeout gives. -/
inductive Awaited (α : Type)
  | ok (a : α)
  | error (msg : String)
  | elapsed

/-- A partner that holds a share of the secret. -/
structure PartnerRef where
  projectId : String
  secretId : String
  wipAudience : String
  deriving DecidableEq

structure Endpoints where
  attestationSocket : String
  stsUrl : String

/-- One partner's bearer for its Secret Manager. -/
structure PartnerToken where
  projectId : String
  smToken : String

/-- A partner with the token its secret is read with. -/
structure PartnerAccess where
  partner : PartnerRef
  smToken : String
  deriving DecidableEq

/-- The reconstructed secret. -/
structure FhePrivShare where
  clientKey : List UInt8
  decryptSignerPriv : List UInt8

inductive KeyOp
  | connect (socketPath : String)
  | writeAll (request : List Char)
  | readToEnd
  /-- `GcpAuth::exchange`. -/
  | exchange (stsUrl audience jwt : String)
  /-- `MetadataClient::token`. -/
  | metadataToken
  /-- `cofhe_keys::reader::read_fhe_priv`. -/
  | readFhePriv (gcsToken publicBucket publicObject : String) (partners : List PartnerAccess)
    (threshold : ℕ) (shareVersion : String)

@[reducible] def KeyOp.Ans : KeyOp → Type
  | connect _ => Awaited Unit
  | writeAll _ => Awaited Unit
  | readToEnd => Awaited (List UInt8)
  | exchange _ _ _ => Awaited String
  | metadataToken => Awaited String
  | readFhePriv _ _ _ _ _ _ => Except String FhePrivShare

abbrev keySig : Sig := ⟨KeyOp, KeyOp.Ans⟩

/-- Code that can stop with an error. -/
abbrev KeyTask (ε α : Type) := ExceptT ε (Prog keySig) α

def keyCall {ε : Type} (o : KeyOp) : KeyTask ε o.Ans := ExceptT.lift (Prog.call (S := keySig) o)

def KeyTask.ofExcept {ε α : Type} (r : Except ε α) : KeyTask ε α := ExceptT.mk (pure r)

/-! ## The attestation token -/

inductive AttestationError
  | timedOut
  | connect (msg : String)
  | write (msg : String)
  | read (msg : String)
  | notUtf8
  | status (statusLine : String)
  | noBodySeparator
  deriving DecidableEq

/-- What a call gives, with the error for one that failed or did not come back in time. -/
def awaited {ε α : Type} (timedOut : ε) (failed : String → ε) : Awaited α → KeyTask ε α
  | .ok a => pure a
  | .error msg => throw (failed msg)
  | .elapsed => throw timedOut

def crlf : List Char := ['\r', '\n']

/-- The JSON body that asks for an OIDC token; `json` renders a string. -/
def tokenBody (json : String → List Char) (audience : String) : List Char :=
  "\x7b\"audience\":".toList ++ (json audience ++ ",\"token_type\":\"OIDC\"\x7d".toList)

/-- The request up to the blank line. -/
def requestHead (contentLength : ℕ) : List Char :=
  "POST /v1/token HTTP/1.0\r\nHost: localhost\r\n".toList
    ++ ("Content-Type: application/json\r\nContent-Length: ".toList ++ Nat.toDigits 10 contentLength)

def tokenRequest (json : String → List Char) (audience : String) : List Char :=
  let body := tokenBody json audience
  requestHead (utf8Len body) ++ (crlf ++ (crlf ++ body))

/-- The token in the launcher's answer: a status line with the code 200, and the text after the
first blank line. -/
def parseToken (response : List UInt8) : Except AttestationError String :=
  match String.fromUTF8? ⟨response.toArray⟩ with
  | none => .error .notUtf8
  | some text =>
    let statusLine := firstPiece crlf text.toList
    if ¬ contains " 200 ".toList statusLine then
      .error (.status (String.ofList (trim statusLine)))
    else match splitOnce (crlf ++ crlf) text.toList with
      | none => .error .noBodySeparator
      | some (_, body) => .ok (String.ofList (trim body))

/-- `AttestationClient::fetch_token`, under the timeout it is called with. -/
def fetchToken (json : String → List Char) (socketPath audience : String) :
    KeyTask AttestationError String := do
  awaited .timedOut .connect (← keyCall (.connect socketPath))
  awaited .timedOut .write (← keyCall (.writeAll (tokenRequest json audience)))
  let response ← awaited .timedOut .read (← keyCall .readToEnd)
  KeyTask.ofExcept (parseToken response)

/-! ## The partners' tokens -/

inductive FederationError
  | attestation (e : AttestationError)
  | exchangeTimedOut
  | exchange (msg : String)
  deriving DecidableEq

section

variable (json : String → List Char) (eps : Endpoints)

/-- One partner's chain: a token of its audience, exchanged for its bearer. -/
def partnerToken (partner : PartnerRef) : KeyTask FederationError String := do
  let jwt ← (fetchToken json eps.attestationSocket partner.wipAudience).adapt .attestation
  awaited .exchangeTimedOut .exchange
    (← keyCall (.exchange eps.stsUrl partner.wipAudience jwt))

/-- The tokens of the partners so far, and the partners that failed, with the partners left. -/
def loadPartnerTokens : List PartnerRef → List PartnerToken → List String →
    Prog keySig (List PartnerToken × List String)
  | [], tokens, failed => return (tokens, failed)
  | p :: partners, tokens, failed => do
    match ← (partnerToken json eps p).run with
    | .ok smToken => loadPartnerTokens partners (tokens ++ [⟨p.projectId, smToken⟩]) failed
    | .error _ => loadPartnerTokens partners tokens (failed ++ [p.projectId])

end

/-! ## The key handles -/

inductive AtomicPatternClientKey
  | standard (smallLweSecretKey : List UInt64) (len_lt : smallLweSecretKey.length < 2 ^ 60)
  | other

/-- The parts of tfhe's client key that are read. -/
structure ClientKeyParts where
  messageModulus : UInt64
  carryModulus : UInt64
  atomicPattern : AtomicPatternClientKey

/-- A k256 signing key, with the uncompressed encoding of its public key. -/
structure SigningKey where
  signer : Signer
  encodedPoint : FixedBytes 65

inductive LoadError
  | partnerRefs (msg : String)
  | metadataTimedOut
  | metadata (msg : String)
  | reconstruct (msg : String)
  | signerKeyLen (got : ℕ)
  | clientKey (msg : String)
  | directKey (e : DecryptError)
  | signer (msg : String)
  deriving DecidableEq

/-- The crates that the loading calls. -/
structure KeyCrates where
  json : String → List Char
  /-- tfhe's `safe_deserialize` at a client key, with a limit. -/
  safeDeserialize : List UInt8 → ℕ → Except String ClientKeyParts
  /-- `k256::ecdsa::SigningKey::from_slice`. -/
  fromSlice : List UInt8 → Except String SigningKey
  keccak256 : List UInt8 → FixedBytes 32

def DirectDecryptKey.fromClientKey (ck : ClientKeyParts) : Except DecryptError DirectDecryptKey :=
  match ck.atomicPattern with
  | .standard smallLweKey len_lt =>
    .ok ⟨smallLweKey, ck.messageModulus, ck.carryModulus, len_lt⟩
  | .other => .error (.directDecrypt "unsupported atomic pattern (expected Standard)")

/-- 1 GiB. -/
def keySizeLimit : ℕ := 1 <<< 30

def KeyStore.load (crates : KeyCrates) (bytes : List UInt8) : Except LoadError KeyStore := do
  let ck ← (crates.safeDeserialize bytes keySizeLimit).mapError .clientKey
  let direct ← (DirectDecryptKey.fromClientKey ck).mapError .directKey
  return ⟨⟨bytes⟩, direct⟩

/-- The last twenty bytes of the public key's hash, its leading byte left out. -/
def evmAddress (keccak256 : List UInt8 → FixedBytes 32) (encodedPoint : FixedBytes 65) : String :=
  String.ofList ('0' :: 'x' :: hexEncode ((keccak256 (encodedPoint.1.drop 1)).1.drop 12))

def signerKeyLen : ℕ := 32

def assemble (crates : KeyCrates) (share : FhePrivShare) : Except LoadError LoadedKeys := do
  if share.decryptSignerPriv.length ≠ signerKeyLen then
    throw (.signerKeyLen share.decryptSignerPriv.length)
  let keys ← KeyStore.load crates share.clientKey
  let key ← (crates.fromSlice share.decryptSignerPriv).mapError .signer
  return ⟨keys, key.signer, evmAddress crates.keccak256 key.encodedPoint⟩

/-! ## `load_keys` -/

/-- What `cofhe-keys` has baked for the environment. -/
structure KeySource where
  partnerRefs : Except String (List PartnerRef)
  publicBucket : String
  manifestObject : String
  shareVersion : String

def endpoints (stsUrl : String) : Endpoints := ⟨"/run/container_launcher/teeserver.sock", stsUrl⟩

def expectPartnerRef : String :=
  "partner token without a matching PartnerRef — bug in load_partner_tokens"

/-- The partner of each token. -/
def pairTokens (partners : List PartnerRef) : List PartnerToken → Exec LoadError (List PartnerAccess)
  | [] => return []
  | t :: tokens => do
    match partners.find? (·.projectId = t.projectId) with
    | none => panic (.expect expectPartnerRef)
    | some partner =>
      let accesses ← pairTokens partners tokens
      return ⟨partner, t.smToken⟩ :: accesses

def loadKeys (crates : KeyCrates) (stsUrl : String) (source : KeySource) (threshold : ℕ) :
    KeyTask (Abort LoadError) LoadedKeys := do
  let partners ← KeyTask.ofExcept (mapErr .partnerRefs source.partnerRefs)
  let (partnerTokens, _) ← ExceptT.lift
    (loadPartnerTokens crates.json (endpoints stsUrl) partners [] [])
  let gcsToken ← awaited (.err .metadataTimedOut) (fun e => .err (.metadata e))
    (← keyCall .metadataToken)
  let accesses ← KeyTask.ofExcept (pairTokens partners partnerTokens)
  let read ← keyCall (.readFhePriv gcsToken source.publicBucket source.manifestObject accesses
    threshold source.shareVersion)
  let share ← KeyTask.ofExcept (mapErr .reconstruct read)
  KeyTask.ofExcept (ofExcept (assemble crates share))

end Teecryptor.Keys
