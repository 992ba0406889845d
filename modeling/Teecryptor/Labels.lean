import Teecryptor.Router

/-!
# What is recorded of a request

`metrics/decrypt.rs` and `metrics/http.rs`: what the metrics layer records once the response is
there, with the labels the request wrote by then.
-/

namespace Teecryptor

open Interact

def EncryptionType.asStr : EncryptionType → String
  | bool => "bool"
  | u8 => "u8"
  | u16 => "u16"
  | u32 => "u32"
  | u64 => "u64"
  | u128 => "u128"
  | address => "address"

/-! ## What is recorded -/

/-- The label values of the chains served, rendered at the boot. -/
abbrev ChainLabels := List (UInt64 × String)

def ChainLabels.new (servedChainIds : List UInt64) : ChainLabels :=
  servedChainIds.map fun id => (id, toString id.toNat)

def ChainLabels.label (chains : ChainLabels) : Option UInt64 → String
  | none => "unknown"
  | some chainId => ((chains.find? fun c => c.1 = chainId).map (·.2)).getD "other"

def acpLabel : Option Bool → String
  | some true => "present"
  | some false => "absent"
  | none => "unknown"

/-- A record on `teecryptor_decrypt_requests_total`, and the attributes of the one on
`teecryptor_decrypt_duration_seconds`, if there is one. -/
structure DecryptRecord where
  route : String
  hostChainId : String
  acp : String
  encryptionType : String
  outcome : String
  duration : Option (String × String)
  deriving DecidableEq, Repr

/-- `decrypt::Instruments::observe`. -/
def observeDecrypt (chains : ChainLabels) (route : String) (labels : DecryptLabels)
    (outcome : Option String) (status : ℕ) : DecryptRecord :=
  let width := (labels.encryptionType.map EncryptionType.asStr).getD "unknown"
  { route
    hostChainId := chains.label labels.hostChainId
    acp := acpLabel labels.acpPresented
    encryptionType := width
    outcome := outcomeLabel outcome status
    duration := if labels.encryptionType.isSome then some (route, width) else none }

def methodLabel : Method → String
  | .get => "GET"
  | .post => "POST"
  | .options => "OPTIONS"
  | .head => "HEAD"
  | .other "PUT" => "PUT"
  | .other "DELETE" => "DELETE"
  | .other "PATCH" => "PATCH"
  | .other _ => "OTHER"

def routeLabel (route : Option String) : String := route.getD "unmatched"

/-- The attributes of the records on the two transport instruments. -/
structure HttpRecord where
  method : String
  route : String
  statusCode : ℕ
  deriving DecidableEq, Repr

/-- `http::Instruments::observe`. -/
def observeHttp (route : Option String) (method : Method) (status : ℕ) : HttpRecord :=
  ⟨methodLabel method, routeLabel route, status⟩

/-! ## The router, with what it records -/

namespace Labelled

section

variable (svc : Service) (chains : ChainLabels) (axum : Extractors) (req : HttpRequest)

/-- Every response is recorded once on the transport instruments, and on a decrypt route also on
the decrypt instruments, with the labels written by then. -/
def trackMetrics (route : Option String) (next : StateT DecryptLabels (Prog sig) Reply) :
    Prog sig (Reply × HttpRecord × Option DecryptRecord) := do
  let (reply, labels) ← next.run .default
  let http := observeHttp route req.method reply.status
  let decrypt := (route.filter (decryptRoutes.contains ·)).map fun route =>
    observeDecrypt chains route labels reply.outcome reply.status
  return (reply, http, decrypt)

def router : Prog sig (Reply × HttpRecord × Option DecryptRecord) :=
  trackMetrics chains req ((matchPath req.path).map Route.template) (routed svc axum req)

end

end Labelled

end Teecryptor
