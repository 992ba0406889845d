import Teecryptor.Http
import Teecryptor.Permit

/-!
# The gates of a decrypt

The checks of `http.rs` before a ciphertext is decrypted: the ACL's answer, the handle's on-chain
commitment, and that the bytes ct-server served are the committed ones. In warn-only mode a failed
commitment check is logged and let through.
-/

namespace Teecryptor

open Interact

section Acp

variable (crates : Crates) (cfg : ChainsVerifierConfig) (handle : U256) (hostChainId : UInt64)
  (acp : Option AcpData) (api : ApiVersion)

/-- An ACP is put to `isAllowedWithPermission`, a request without one to `isPubliclyAllowed`. -/
def verifyAcp : Attempt AcpError Unit :=
  match acp with
  | some acp => verifyViaTaskmanager crates.parseAddress cfg acp handle hostChainId
  | none => verifyPubliclyAllowed cfg handle hostChainId

/-- The response to a request the ACL check fails with an error. -/
def acpResponse (acpPresented : Bool) : AcpError → Response
  | .denied => if acpPresented then api.err 401 "acp_denied" else api.err 403 "not_publicly_allowed"
  | .unknownChain _ => api.err 400 "unknown_chain"
  | .expired => api.err 401 "acp_expired"
  | .badSignature => api.err 401 "acp_invalid"
  | .malformed _ => api.err 400 "acp_malformed"
  | .timeout _ => api.err 504 "acp_verifier_timeout"
  | .transport _ => api.err 502 "acp_verifier_error"
  | .misconfigured _ => api.err 502 "acp_verifier_error"

/-- The response to stop with, or nothing when the check passes. -/
def enforceAcp : Task (Option Response) := do
  match ← (verifyAcp crates cfg handle hostChainId acp).run with
  | .ok () => return none
  | .error e => return some (acpResponse api acp.isSome e)

end Acp

section Commitment

variable (handle : U256) (hostChainId : UInt64) (api : ApiVersion)

def commitmentLog (reason : String) (mode : Option String) : LogLine :=
  ⟨"commitment", some reason, mode⟩

/-- A failed commitment check: logged, and in warn-only mode passed over with `allowed`. -/
def refuse {α : Type} (warnOnly : Bool) (reason : String) (allowed : α) (resp : Response) :
    Attempt Response α := do
  if warnOnly then
    attempt (.log (commitmentLog reason (some "warn_only")))
    return allowed
  else
    attempt (.log (commitmentLog reason none))
    throw resp

/-- The `reason` of a failed lookup's log line. -/
def commitmentReason : CommitmentError → String
  | .notFound => "not_found"
  | .timeout _ => "timeout"
  | .transport _ => "transport"
  | .misconfigured _ => "transport"

/-- The response to a request whose commitment lookup fails. -/
def commitmentResponse : CommitmentError → Response
  | .notFound => api.retryable .commitmentPending
  | .timeout _ => api.err 504 "commitment_verifier_timeout"
  | .transport _ => api.err 502 "commitment_verifier_error"
  | .misconfigured _ => api.err 502 "commitment_verifier_error"

/-- The commitment to check the ciphertext against; none if warn-only mode let a failed lookup
pass. -/
def enforceCommitment (cfg : CommitmentConfig) : Attempt Response (Option FetchedCommitment) := do
  match ← ExceptT.lift (fetchCommitment cfg handle hostChainId).run with
  | .ok fetched => return some fetched
  | .error e => refuse cfg.warnOnly (commitmentReason e) none (commitmentResponse api e)

/-- The verdict on the bytes hashing to `actual` under the commitment `expected`. -/
def judgeCommitment (warnOnly : Bool) (actual : FixedBytes 32) (expected : CommitHash) :
    Attempt Response Unit :=
  if actual = expected.1 then pure ()
  else refuse warnOnly "mismatch" () (api.err 502 "commitment_mismatch")

/-- The served bytes must hash to the commitment. One that came from the cache is read again
before it refuses them. -/
def enforceCommitmentIntegrity (crates : Crates) (cfg : Option CommitmentConfig)
    (fetched : FetchedCommitment) (ctData : List UInt8) : Attempt Response Unit :=
  let warnOnly := cfg.any (·.warnOnly)
  let actual := calcCommitment crates ctData
  match cfg with
  | some cfg =>
    if actual ≠ fetched.hash.1 ∧ fetched.fromCache = true then do
      match ← ExceptT.lift (refreshCommitment cfg handle hostChainId).run with
      | .ok fresh =>
        if fresh.1 = actual then
          attempt (.log (commitmentLog "stale_cache_refreshed" none))
        else judgeCommitment api warnOnly actual fresh
      | .error .notFound =>
        refuse warnOnly "not_found" () (api.retryable .commitmentPending)
      | .error _ =>
        attempt (.log (commitmentLog "refresh_failed" none))
        judgeCommitment api warnOnly actual fetched.hash
    else judgeCommitment api warnOnly actual fetched.hash
  | none => judgeCommitment api warnOnly actual fetched.hash

end Commitment

end Teecryptor
