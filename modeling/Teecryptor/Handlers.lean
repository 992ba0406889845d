import Teecryptor.FetchDecrypt

/-!
# The routes

The handlers of `http.rs`: `/decrypt` and `/sealoutput`, their v2 counterparts, which also keep
their result for the poll routes, and the poll routes, with the labels they write.
-/

namespace Teecryptor

open Interact Bytes Rust

def rejectBody {α : Type} (api : ApiVersion) : Except JsonRejection α → Attempt Response α
  | .ok req => pure req
  | .error rejection => throw (api.reject rejection)

def parseHandle (api : ApiVersion) (raw : String) : Attempt Response Handle :=
  match Handle.parse raw with
  | some handle => pure handle
  | none => throw (api.err 400 "bad_request")

def resolveSignature (api : ApiVersion) (signed : Option (Except SigningError String)) :
    Attempt Response String :=
  match signed with
  | none => pure ""
  | some (.ok sig) => pure sig
  | some (.error _) => throw (api.err 500 "signing_failed")

def requireAcp (api : ApiVersion) : Option AcpData → Attempt Response AcpData
  | some acp => pure acp
  | none => throw (api.err 400 "acp_required")

/-- The recipient's key from the ACP's `sealingKey`. -/
def recipientKey (api : ApiVersion) (acp : AcpData) : Attempt Response (List UInt8) :=
  match hexDecode (trimStart0x acp.sealingKey.toList) with
  | .ok key => pure key
  | .error _ => throw (api.err 400 "acp_malformed")

def sealResponse (api : ApiVersion) : SealError → Response
  | .badKeyLength _ => api.err 400 "acp_malformed"
  | .degenerateKey => api.err 400 "acp_malformed"
  | .encryptFailed _ => api.err 500 "seal_failed"

def sealFor (crates : Crates) (api : ApiVersion) (recipientPk plaintext : List UInt8) :
    Attempt Response SealedOutput := do
  let sealed ← ExceptT.lift (sealToUser crates.cryptoBox recipientPk plaintext).run
  Attempt.ofExcept (sealed.mapError (sealResponse api))

def notFoundResponse : Response := ⟨404, none, .empty, none⟩

def handleDecryptV2Status (requestId : String) : Task Response := do
  match ← perform (.v2CacheGet requestId) with
  | none => return notFoundResponse
  | some r =>
    return .okJson (.v2DecryptStatus
      ⟨requestId, .completed, r.submittedAt, some r.completedAt, some true, some r.decrypted,
        some r.signature, some r.encryptionType, none⟩)

def handleSealoutputV2Status (requestId : String) : Task Response := do
  match ← perform (.v2SealCacheGet requestId) with
  | none => return notFoundResponse
  | some r =>
    return .okJson (.v2SealOutputStatus
      ⟨requestId, .completed, r.submittedAt, some r.completedAt, some true,
        some ⟨r.sealedData, r.ephemeralPublicKey, r.nonce⟩, some r.signature,
        some r.encryptionType, none⟩)

/-- A request to the service, by its route. -/
inductive Request
  | decrypt (headers : HeaderMap) (body : Except JsonRejection DecryptRequest)
  | sealoutput (headers : HeaderMap) (body : Except JsonRejection SealOutputRequest)
  | v2Decrypt (headers : HeaderMap) (body : Except JsonRejection DecryptRequest)
  | v2Sealoutput (headers : HeaderMap) (body : Except JsonRejection SealOutputRequest)
  | v2DecryptStatus (requestId : String)
  | v2SealoutputStatus (requestId : String)

/-! ## The handlers, with their labels -/

namespace Labelled

section

variable {m : Type → Type} [Monad m] [Sinks DecryptLabels sig m]

/-- The response of a handler, returned early or at its end. -/
def respond (h : ExceptT Response m Response) : m Response := do
  match ← h.run with
  | .ok resp => return resp
  | .error resp => return resp

variable (st : AppState) (headers : HeaderMap)

def handleDecrypt (body : Except JsonRejection DecryptRequest) : m Response := respond do
  let api := ApiVersion.v1
  let req ← quiet (rejectBody api body)
  let _requestId ← quiet (attempt .newUuid)
  write (·.setHostChainId req.hostChainId)
  write (·.setAcpPresented req.acp.isSome)
  let handle ← quiet (parseHandle api req.ctTempkey)
  let vFormat := parseVFormat headers
  let (pt, ty) ← fetchDecrypt st handle req.hostChainId req.acp api
  let decrypted := (toBeBytes pt).1
  let signature ← quiet <| resolveSignature api <| st.signer.map fun svc =>
    signDecrypt st.crates.keccak256 svc pt ty.toI32 req.hostChainId handle.asStr vFormat
  return .okJson (.decrypt ⟨decrypted, signature, ty.toI32, none⟩)

def handleSealoutput (body : Except JsonRejection SealOutputRequest) : m Response := respond do
  let api := ApiVersion.v1
  let req ← quiet (rejectBody api body)
  let _requestId ← quiet (attempt .newUuid)
  write (·.setHostChainId req.hostChainId)
  write (·.setAcpPresented req.acp.isSome)
  let handle ← quiet (parseHandle api req.ctTempkey)
  let vFormat := parseVFormat headers
  let acp ← quiet (requireAcp api req.acp)
  let (pt, ty) ← fetchDecrypt st handle req.hostChainId (some acp) api
  let recipientPk ← quiet (recipientKey api acp)
  let sealed ← quiet (sealFor st.crates api recipientPk (ty.encode pt))
  let signature ← quiet <| resolveSignature api <| st.signer.map fun svc =>
    signSealoutput st.crates.keccak256 svc sealed.data sealed.publicKey sealed.nonce ty.toI32
      req.hostChainId handle.asStr vFormat
  return .okJson (.sealOutput
    ⟨some ⟨sealed.data, sealed.publicKey, sealed.nonce⟩, signature, ty.toI32, none⟩)

def handleDecryptV2Submit (body : Except JsonRejection DecryptRequest) : m Response :=
  respond do
    let api := ApiVersion.v2
    let req ← quiet (rejectBody api body)
    let requestId ← quiet (attempt .newUuid)
    write (·.setHostChainId req.hostChainId)
    write (·.setAcpPresented req.acp.isSome)
    let handle ← quiet (parseHandle api req.ctTempkey)
    let vFormat := parseVFormat headers
    let now ← quiet (attempt .utcNow)
    let (pt, ty) ← fetchDecrypt st handle req.hostChainId req.acp api
    let decrypted := (toBeBytes pt).1
    let signature ← quiet <| resolveSignature api <| st.signer.map fun svc =>
      signDecrypt st.crates.keccak256 svc pt ty.toI32 req.hostChainId handle.asStr vFormat
    quiet (attempt (.v2CachePut requestId ⟨decrypted, signature, ty.toI32, now, now⟩))
    return .okJson (.v2DecryptSubmit ⟨requestId, some decrypted, some signature, some ty.toI32⟩)

def handleSealoutputV2Submit (body : Except JsonRejection SealOutputRequest) : m Response :=
  respond do
    let api := ApiVersion.v2
    let req ← quiet (rejectBody api body)
    let requestId ← quiet (attempt .newUuid)
    write (·.setHostChainId req.hostChainId)
    write (·.setAcpPresented req.acp.isSome)
    let handle ← quiet (parseHandle api req.ctTempkey)
    let vFormat := parseVFormat headers
    let now ← quiet (attempt .utcNow)
    let acp ← quiet (requireAcp api req.acp)
    let (pt, ty) ← fetchDecrypt st handle req.hostChainId (some acp) api
    let recipientPk ← quiet (recipientKey api acp)
    let sealed ← quiet (sealFor st.crates api recipientPk (ty.encode pt))
    let signature ← quiet <| resolveSignature api <| st.signer.map fun svc =>
      signSealoutput st.crates.keccak256 svc sealed.data sealed.publicKey sealed.nonce ty.toI32
        req.hostChainId handle.asStr vFormat
    quiet (attempt (.v2SealCachePut requestId
      ⟨sealed.data, sealed.publicKey, sealed.nonce, signature, ty.toI32, now, now⟩))
    return .okJson (.v2SealOutputSubmit ⟨requestId, some sealed.data, some sealed.publicKey,
      some sealed.nonce, some signature, some ty.toI32⟩)

/-- The poll routes write no labels. -/
def serve : Request → m Response
  | .decrypt headers body => handleDecrypt st headers body
  | .sealoutput headers body => handleSealoutput st headers body
  | .v2Decrypt headers body => handleDecryptV2Submit st headers body
  | .v2Sealoutput headers body => handleSealoutputV2Submit st headers body
  | .v2DecryptStatus requestId => quietly (handleDecryptV2Status requestId)
  | .v2SealoutputStatus requestId => quietly (handleSealoutputV2Status requestId)

end

end Labelled

/-! ## The handlers without them -/

def respond (h : Attempt Response Response) : Task Response := Labelled.respond h

def serve (st : AppState) (req : Request) : Task Response := Labelled.serve st req

@[simp] theorem serve_plain (st : AppState) (req : Request) :
    (Labelled.serve st req : Task Response) = serve st req := rfl

@[simp] theorem respond_plain (h : Attempt Response Response) :
    (Labelled.respond h : Task Response) = respond h := rfl

end Teecryptor
