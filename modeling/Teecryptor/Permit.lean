import Teecryptor.Effects

/-!
# The ACL check

`permit.rs`, its calls to the TaskManager: a request with an ACP is put to
`isAllowedWithPermission`, one without to `isPubliclyAllowed`, on the chain the request names.
-/

namespace Teecryptor

/-- What the TaskManager's answer on the chain `cfg` says of the request. -/
def checkAllowed (cfg : ChainConfig) : RpcResult Bool → Attempt AcpError Unit
  | .timeout => throw (.timeout cfg.timeout)
  | .ok true => pure ()
  | .ok false => throw .denied
  | .error e => throw (mapContractError e)

def verifyViaTaskmanager (parse : AddressParser) (chains : ChainsVerifierConfig) (acp : AcpData)
    (handle : U256) (hostChainId : UInt64) : Attempt AcpError Unit :=
  match chains.get hostChainId with
  | none => throw (.unknownChain hostChainId)
  | some cfg => do
    let permission ← Attempt.ofExec (ACP.tryFrom parse acp)
    let result ← attempt (.isAllowedWithPermission cfg permission handle)
    checkAllowed cfg result

def verifyPubliclyAllowed (chains : ChainsVerifierConfig) (handle : U256)
    (hostChainId : UInt64) : Attempt AcpError Unit :=
  match chains.get hostChainId with
  | none => throw (.unknownChain hostChainId)
  | some cfg => do
    let result ← attempt (.isPubliclyAllowed cfg handle)
    checkAllowed cfg result

end Teecryptor
