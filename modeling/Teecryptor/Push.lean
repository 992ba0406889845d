import Teecryptor.Otlp
import Teecryptor.Lib.Prog

/-!
# Pushing a metrics export

`metrics/otlp_http_client.rs`: the exporter hands over one request; it is sent to the Telemetry API
under a token of the VM's service account, in as many requests as its points need. The metadata
server and the API answer arbitrarily. What a token's JSON says, which strings are header values
and which URLs parse are parameters.
-/

namespace Teecryptor.Otlp

open Interact Rust

structure PushRequest where
  method : String
  uri : String
  headers : List (String × String)
  body : List UInt8
  deriving DecidableEq

structure PushResponse where
  status : ℕ
  headers : List (String × String)

/-- The metadata server's answer; the body is `none` where reading it fails. -/
inductive MetadataReply
  | sendError
  | response (status : ℕ) (body : Option String)

inductive ApiReply
  | sendError
  | response (r : PushResponse)

inductive PushOp
  /-- A `GET` with `Metadata-Flavor: Google`. -/
  | get (url : String)
  | execute (request : PushRequest)
  /-- `Response::bytes` of the last response. -/
  | readBody
  /-- The error log, which has the first 400 characters of the body. -/
  | logRejected (status : ℕ) (body : List UInt8)

@[reducible] def PushOp.Ans : PushOp → Type
  | get _ => MetadataReply
  | execute _ => ApiReply
  | readBody => Option (List UInt8)
  | logRejected _ _ => Unit

abbrev pushSig : Sig := ⟨PushOp, PushOp.Ans⟩

/-- What is boxed as the exporter's `HttpError`. -/
inductive HttpError (ε : Type)
  | send
  | status (code : ℕ)
  | body
  | json
  | headerValue
  | decode (e : ε)
  | url

variable {ε : Type}

abbrev Push (ε α : Type) := ExceptT (Abort (HttpError ε)) (Prog pushSig) α

def pushCall (o : PushOp) : Push ε o.Ans := ExceptT.lift (Prog.call (S := pushSig) o)

def PushResponse.isSuccess (r : PushResponse) : Bool := 200 ≤ r.status ∧ r.status < 300

/-! ## The metadata server -/

structure MetadataClient where
  base : String

/-- `MetadataClient::new`, with the override and what `GCE_METADATA_HOST` holds. -/
def MetadataClient.new (hostOverride env : Option String) : MetadataClient :=
  let host := (hostOverride.or env).getD "metadata.google.internal"
  ⟨s!"http://{host}/computeMetadata/v1"⟩

/-- A response that `error_for_status` lets through, which is one of no 4xx or 5xx. -/
def MetadataClient.get (client : MetadataClient) (path : String) : Push ε (Option String) := do
  match ← pushCall (.get (client.base ++ path)) with
  | .sendError => throw (.err .send)
  | .response status body =>
    if 400 ≤ status ∧ status < 600 then throw (.err (.status status)) else return body

section

variable (tokenOf : String → Option String) (isHeaderValue isUrl : String → Bool)

def MetadataClient.accessToken (client : MetadataClient) : Push ε String := do
  match ← client.get "/instance/service-accounts/default/token" with
  | none => throw (.err .body)
  | some body =>
    match tokenOf body with
    | none => throw (.err .json)
    | some token => return token

/-! ## The export -/

/-- `HeaderMap::insert`: the values the name had are gone. -/
def insertHeader (headers : List (String × String)) (name value : String) :
    List (String × String) :=
  headers.filter (·.1 ≠ name) ++ [(name, value)]

/-- The request with its credential. -/
def authorize (client : MetadataClient) (request : PushRequest) : Push ε PushRequest := do
  let token ← client.accessToken tokenOf
  let value := s!"Bearer {token}"
  if isHeaderValue value then
    return { request with headers := insertHeader request.headers "authorization" value }
  else throw (.err .headerValue)

/-- The loop over the pieces, with the response to the last one that was sent. -/
def sendPieces (parts : PushRequest) : Option PushResponse → List (List UInt8) →
    Push ε (Option PushResponse)
  | response, [] => return response
  | _, piece :: pieces => do
    if ¬isUrl parts.uri then throw (.err .url)
    match ← pushCall (.execute { parts with body := piece }) with
    | .sendError => throw (.err .send)
    | .response resp =>
      if resp.isSuccess then sendPieces parts (some resp) pieces else return some resp

/-- What the exporter is told: the last response. -/
def report (response : Option PushResponse) : Push ε (PushResponse × List UInt8) :=
  match response with
  | none => throw (.panic (.expect "split_request never returns zero pieces"))
  | some response => do
    match ← pushCall .readBody with
    | none => throw (.err .body)
    | some bytes =>
      if ¬response.isSuccess then pushCall (.logRejected response.status bytes)
      return (response, bytes)

/-- The Telemetry API refuses a request of more points. -/
def maxPointsPerRequest : ℕ := 200

def Abort.decode : Abort ε → Abort (HttpError ε)
  | .err e => .err (.decode e)
  | .panic p => .panic p

variable {T : Types} (encode : ExportMetricsServiceRequest T → List UInt8)
  (decode : List UInt8 → Except ε (ExportMetricsServiceRequest T)) (fuel : ℕ)

/-- `GoogleAuthClient::send_bytes`; `none` when the fuel of the split runs out. -/
def sendBytes (client : MetadataClient) (request : PushRequest) :
    Prog pushSig (Option (Except (Abort (HttpError ε)) (PushResponse × List UInt8))) := do
  match ← (authorize tokenOf isHeaderValue client request).run with
  | .error e => return some (.error e)
  | .ok parts =>
    match (splitRequest encode decode fuel request.body maxPointsPerRequest).run with
    | none => return none
    | some (.error e) => return some (.error (Abort.decode e))
    | some (.ok pieces) => do
      let result ← (sendPieces isUrl parts none pieces >>= report).run
      return some result

end

end Teecryptor.Otlp
