import Teecryptor.Handlers

/-!
# The router

`router` of `http.rs`: the handler each path and method goes to, what axum and the CORS layer answer
by themselves, and the metrics layer around them, with the outcome label of `metrics/decrypt.rs`.
What axum's extractors make of a request is a parameter.
-/

namespace Teecryptor

open Interact Rust

inductive Method
  | get
  | head
  | post
  | options
  | other (name : String)
  deriving DecidableEq, Repr

structure HttpRequest where
  method : Method
  path : String
  headers : List (String × List UInt8)
  body : List UInt8
  deriving DecidableEq

/-- axum's extractors: the signature-format header, the JSON bodies, and the percent-decoding of a
path segment, which fails when it is not UTF-8. -/
structure Extractors where
  headers : HttpRequest → HeaderMap
  decryptJson : HttpRequest → Except JsonRejection DecryptRequest
  sealOutputJson : HttpRequest → Except JsonRejection SealOutputRequest
  decodeSegment : List Char → Option String

/-- The routes, with the segment that stands for `{request_id}`. -/
inductive Route
  | healthz
  | decrypt
  | sealoutput
  | v2Decrypt
  | v2DecryptStatus (segment : List Char)
  | v2Sealoutput
  | v2SealoutputStatus (segment : List Char)
  | signerAddress
  deriving DecidableEq, Repr

/-- The route template, as `MatchedPath` has it. -/
def Route.template : Route → String
  | healthz => "/healthz"
  | decrypt => "/decrypt"
  | sealoutput => "/sealoutput"
  | v2Decrypt => "/v2/decrypt"
  | v2DecryptStatus _ => "/v2/decrypt/\x7brequest_id\x7d"
  | v2Sealoutput => "/v2/sealoutput"
  | v2SealoutputStatus _ => "/v2/sealoutput/\x7brequest_id\x7d"
  | signerAddress => "/signerAddress"

/-- What stands after `before` in the path, if it is one segment and not empty. -/
def segmentAfter (before : String) (path : String) : Option (List Char) :=
  (stripPrefix before.toList path.toList).filter fun seg => !seg.isEmpty && !seg.contains '/'

/-- The route whose template a path matches. -/
def matchPath (path : String) : Option Route :=
  if path = "/healthz" then some .healthz
  else if path = "/decrypt" then some .decrypt
  else if path = "/sealoutput" then some .sealoutput
  else if path = "/v2/decrypt" then some .v2Decrypt
  else if path = "/v2/sealoutput" then some .v2Sealoutput
  else if path = "/signerAddress" then some .signerAddress
  else ((segmentAfter "/v2/decrypt/" path).map .v2DecryptStatus).or
    ((segmentAfter "/v2/sealoutput/" path).map .v2SealoutputStatus)

/-- A response of the router. -/
inductive Reply
  | api (resp : Response)
  | signerAddress (address : String)
  deriving DecidableEq

namespace Reply

def status : Reply → ℕ
  | api resp => resp.status
  | signerAddress _ => 200

/-- The `Outcome` in the response's extensions. -/
def outcome : Reply → Option String
  | api resp => resp.outcome
  | signerAddress _ => none

/-- A response with a status and nothing else. -/
def ofStatus (status : ℕ) : Reply := .api ⟨status, none, .empty, none⟩

/-- What is left of the answer to a `HEAD` request. -/
def withoutBody : Reply → Reply
  | api resp => .api { resp with body := .empty }
  | signerAddress _ => ofStatus 200

end Reply

/-- The service as the router has it: the handlers' state, whether the boot is done, and the
signer's address if there is a signer. -/
structure Service where
  st : AppState
  ready : Bool
  evmAddress : Option String

def handleHealthz (svc : Service) : Reply := .ofStatus (if svc.ready then 200 else 503)

def handleSignerAddress (svc : Service) : Reply :=
  .signerAddress (svc.evmAddress.getD "0x0000000000000000000000000000000000000000")

section

variable (svc : Service) (axum : Extractors) (req : HttpRequest)

/-- `get(handler)`: the handler also answers `HEAD`, and any other method is a 405. -/
def getRoute (handler : Task Reply) : Task Reply :=
  match req.method with
  | .get => handler
  | .head => do
    let reply ← handler
    return reply.withoutBody
  | _ => return .ofStatus 405

def Labelled.serveApi {m : Type → Type} [Monad m] [Sinks DecryptLabels sig m] (r : Request) :
    m Reply := do
  let resp ← Labelled.serve svc.st r
  return .api resp

def serveApi (r : Request) : Task Reply := Labelled.serveApi svc r

/-- A poll route's handler. A segment that cannot be decoded is refused by axum. -/
def pollRoute (segment : List Char) (poll : String → Request) : Task Reply :=
  getRoute req <|
    match axum.decodeSegment segment with
    | some requestId => serveApi svc (poll requestId)
    | none => return .ofStatus 400

namespace Labelled

variable {m : Type → Type} [Monad m] [Sinks DecryptLabels sig m]

/-- `post(handler)`. -/
def postRoute (handler : m Reply) : m Reply :=
  match req.method with
  | .post => handler
  | _ => return .ofStatus 405

/-- The routes that do not run the decrypt path write no labels. -/
def call : Route → m Reply
  | .healthz => quietly (getRoute req (return handleHealthz svc))
  | .decrypt => postRoute req (serveApi svc (.decrypt (axum.headers req) (axum.decryptJson req)))
  | .sealoutput =>
    postRoute req (serveApi svc (.sealoutput (axum.headers req) (axum.sealOutputJson req)))
  | .v2Decrypt =>
    postRoute req (serveApi svc (.v2Decrypt (axum.headers req) (axum.decryptJson req)))
  | .v2DecryptStatus segment => quietly (pollRoute svc axum req segment .v2DecryptStatus)
  | .v2Sealoutput =>
    postRoute req (serveApi svc (.v2Sealoutput (axum.headers req) (axum.sealOutputJson req)))
  | .v2SealoutputStatus segment => quietly (pollRoute svc axum req segment .v2SealoutputStatus)
  | .signerAddress => quietly (getRoute req (return handleSignerAddress svc))

/-- `cors_layer`: an `OPTIONS` request is answered here, whatever its path. -/
def corsLayer (inner : m Reply) : m Reply :=
  if req.method = .options then return .ofStatus 200 else inner

/-- What the metrics layer is around. -/
def routed : m Reply :=
  corsLayer req <|
    match matchPath req.path with
    | some route => call svc axum req route
    | none => return .ofStatus 404

end Labelled

/-- The label of a response on the decrypt path. -/
def outcomeLabel (outcome : Option String) (status : ℕ) : String :=
  match outcome with
  | some code => code
  | none => if 200 ≤ status ∧ status < 300 then "ok" else "rejected"

/-- One count of `teecryptor_decrypt_requests_total`. -/
structure DecryptSample where
  route : String
  outcome : String
  deriving DecidableEq, Repr

/-- `DECRYPT_ROUTES`. -/
def decryptRoutes : List String := ["/decrypt", "/sealoutput", "/v2/decrypt", "/v2/sealoutput"]

/-- The outermost layer: what is answered goes out, and on a decrypt route it is counted. -/
def trackMetrics (route : Option String) (next : Task Reply) :
    Task (Reply × Option DecryptSample) := do
  let reply ← next
  let sample := (route.filter (decryptRoutes.contains ·)).map fun route =>
    ⟨route, outcomeLabel reply.outcome reply.status⟩
  return (reply, sample)

def router : Task (Reply × Option DecryptSample) :=
  trackMetrics ((matchPath req.path).map Route.template) (Labelled.routed svc axum req)

end

end Teecryptor
