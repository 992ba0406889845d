import Teecryptor.Gates
import Teecryptor.Labelling

/-!
# From a handle to its plaintext

`fetch_decrypt` of `http.rs`, the path all four routes share: admission, the two on-chain gates at
once, the fetch from ct-server, the checks on what it served, and the decryption on the blocking
pool (`run_gated` of `cpu.rs`). The type is a label once it is checked.
-/

namespace Teecryptor

open Interact Rust

def Attempt.ofExcept {ε α : Type} (r : Except ε α) : Attempt ε α := ExceptT.mk (pure r)

/-- What awaiting a closure on the blocking pool gives: one that panics is a join error. -/
def joined {ε α : Type} : Exec ε α → Except Panic (Except ε α)
  | .ok a => .ok (.ok a)
  | .error (.err e) => .ok (.error e)
  | .error (.panic p) => .error p

/-- Runs a closure on the blocking pool, under a permit that goes along with it. -/
def runGated {ε α : Type} (closure : Exec ε α) : Task (Except Panic (Except ε α)) := do
  perform .acquireDecrypt
  let task ← perform .spawnBlocking
  perform (.joinBlocking task)
  return joined closure

section

variable (st : AppState) (handle : Handle) (hostChainId : UInt64) (acp : Option AcpData)
  (api : ApiVersion)

def acpGate : Task (Option Response) :=
  match st.acpVerifier with
  | some cfg => enforceAcp st.crates cfg handle.u256 hostChainId acp api
  | none => pure none

def commitmentGate : Attempt Response (Option FetchedCommitment) :=
  match st.commitmentVerifier with
  | some cfg => enforceCommitment handle.u256 hostChainId api cfg
  | none => pure none

/-- Both gates at once, each to its end. An ACL rejection goes before the commitment's. -/
def gates : Attempt Response (Option FetchedCommitment) :=
  if st.acpVerifier.isSome ∨ st.commitmentVerifier.isSome then do
    let (acpResp, commitRes) ← ExceptT.lift <| Prog.join
      (acpGate st handle hostChainId acp api) (commitmentGate st handle hostChainId api).run
    match acpResp with
    | some resp => throw resp
    | none => Attempt.ofExcept commitRes
  else pure none

/-- The response to a request whose ciphertext could not be fetched. -/
def ctFetchResponse : CtFetchError → Response
  | .notFound => api.err 404 "ct_not_found"
  | .notReady => api.retryable .ctNotReady
  | .timeout => api.err 504 "ct_source_timeout"
  | .transport _ => api.err 502 "ct_source_error"
  | .unexpectedStatus _ => api.err 502 "ct_source_error"
  | .badResponse _ => api.err 502 "ct_source_error"

def fetchRow : Attempt Response FheCiphertext := do
  let row ← ExceptT.lift (fetch st.crates.parseGetCtResponse handle.asStr)
  Attempt.ofExcept (row.mapError (ctFetchResponse api))

/-- Only zone 0 is served, and only in the compressed form the engine stores. -/
def checkForm (ct : FheCiphertext) : Except Response Unit :=
  if ct.securityZone ≠ 0 then .error (api.err 422 "unsupported_security_zone")
  else if ct.compact ∨ ¬ ct.gzipped then .error (api.err 502 "ct_source_error")
  else .ok ()

/-- The bytes are checked against the commitment the gates gave, if they gave one. -/
def integrityGate (expectedCommit : Option FetchedCommitment) (ctData : List UInt8) :
    Attempt Response Unit :=
  match expectedCommit with
  | some fetched =>
    enforceCommitmentIntegrity handle.u256 hostChainId api st.crates st.commitmentVerifier fetched
      ctData
  | none => pure ()

/-- The type to decrypt as: the one ct-server declares, which has to be the handle's, as has the
zone. -/
def checkMetadata (ct : FheCiphertext) : Attempt Response EncryptionType :=
  let handleBytes := toBeBytes handle.u256
  if (st.keys.clientKey ct.securityZone).isNone then
    throw (api.err 422 "unsupported_security_zone")
  else match EncryptionType.fromI32 ct.encryptionType with
    | .error _ => throw (api.err 422 "unsupported_type")
    | .ok ty =>
      if ((handleType handleBytes).toNat : ℤ) ≠ ct.encryptionType then do
        attempt (.log ⟨"type", none, none⟩)
        throw (api.err 502 "ct_type_mismatch")
      else if ((handleZone handleBytes).toNat : ℤ) ≠ ct.securityZone then do
        attempt (.log ⟨"zone", none, none⟩)
        throw (api.err 502 "ct_zone_mismatch")
      else pure ty

/-- The closure that decrypts the served bytes. -/
def decryptClosure (ct : FheCiphertext) (ty : EncryptionType) : Exec DecryptError U256 :=
  if ct.gzipped then
    match st.keys.directKey ct.securityZone with
    | none => panic (.expect "zone validated as supported above")
    | some dk => decryptCompressed st.crates.tfhe dk ty ct.data
  else fail (.directDecrypt "non-compressed ciphertext (legacy plain path disabled)")

/-- What comes back from the blocking pool, as the value or the response to stop with. -/
def decryptResult : Except Panic (Except DecryptError U256) → Except Response U256
  | .ok (.ok pt) => .ok pt
  | .ok (.error _) => .error (api.err 502 "ct_source_error")
  | .error _ => .error (api.err 500 "internal_error")

def decryptRow (ct : FheCiphertext) (ty : EncryptionType) : Attempt Response U256 := do
  let result ← ExceptT.lift (runGated (decryptClosure st ct ty))
  Attempt.ofExcept (decryptResult api result)

/-! ## The path, with its labels -/

namespace Labelled

variable {m : Type → Type} [Monad m] [Sinks DecryptLabels sig m]

/-- A row that passed the form and commitment checks: its metadata is checked, and it is
decrypted. -/
def decryptServed (ct : FheCiphertext) : ExceptT Response m (U256 × EncryptionType) := do
  let ty ← quiet (checkMetadata st handle api ct)
  write (·.setEncryptionType ty)
  let pt ← quiet (decryptRow st api ct ty)
  return (pt, ty)

/-- What follows the gates: the row, its checks, and its decryption. -/
def openRow (expectedCommit : Option FetchedCommitment) :
    ExceptT Response m (U256 × EncryptionType) := do
  let ct ← quiet (fetchRow st handle api)
  quiet (Attempt.ofExcept (checkForm api ct))
  quiet (integrityGate st handle hostChainId api expectedCommit ct.data)
  decryptServed st handle api ct

def admitted : ExceptT Response m (U256 × EncryptionType) := do
  let expectedCommit ← quiet (gates st handle hostChainId acp api)
  openRow st handle hostChainId api expectedCommit

/-- The value and type of a handle's ciphertext, under an admission permit that is dropped however
the request ends. -/
def fetchDecrypt : ExceptT Response m (U256 × EncryptionType) := do
  let permit ← quiet (attempt .tryAdmit)
  if permit then
    let out ← ExceptT.lift (admitted st handle hostChainId acp api).run
    quiet (attempt .dropAdmit)
    quiet (Attempt.ofExcept out)
  else quiet (throw (api.retryable .overloaded))

end Labelled

/-! ## The path without them -/

def decryptServed (ct : FheCiphertext) : Attempt Response (U256 × EncryptionType) :=
  Labelled.decryptServed st handle api ct

def openRow (expectedCommit : Option FetchedCommitment) :
    Attempt Response (U256 × EncryptionType) :=
  Labelled.openRow st handle hostChainId api expectedCommit

def admitted : Attempt Response (U256 × EncryptionType) :=
  Labelled.admitted st handle hostChainId acp api

def fetchDecrypt : Attempt Response (U256 × EncryptionType) :=
  Labelled.fetchDecrypt st handle hostChainId acp api

@[simp] theorem fetchDecrypt_plain :
    Labelled.fetchDecrypt st handle hostChainId acp api
      = (fetchDecrypt st handle hostChainId acp api : Attempt Response _) := rfl

theorem decryptServed_eq (ct : FheCiphertext) : decryptServed st handle api ct = (do
    let ty ← checkMetadata st handle api ct
    let pt ← decryptRow st api ct ty
    return (pt, ty)) := rfl

theorem openRow_eq (expectedCommit : Option FetchedCommitment) :
    openRow st handle hostChainId api expectedCommit = (do
      let ct ← fetchRow st handle api
      Attempt.ofExcept (checkForm api ct)
      integrityGate st handle hostChainId api expectedCommit ct.data
      decryptServed st handle api ct) := rfl

theorem admitted_eq : admitted st handle hostChainId acp api = (do
    let expectedCommit ← gates st handle hostChainId acp api
    openRow st handle hostChainId api expectedCommit) := rfl

theorem fetchDecrypt_eq : fetchDecrypt st handle hostChainId acp api = (do
    let permit ← attempt .tryAdmit
    if permit then
      let out ← ExceptT.lift (admitted st handle hostChainId acp api).run
      attempt .dropAdmit
      Attempt.ofExcept out
    else throw (api.retryable .overloaded)) := rfl

end

end Teecryptor
