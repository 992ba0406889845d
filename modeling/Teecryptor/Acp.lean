import Teecryptor.Decrypt

/-!
# The ACP on the wire and as the contract takes it

`permit.rs` up to its RPC calls: the strings a caller sends under `acp`, their conversion to the
ABI tuple of `isAllowedWithPermission`, and the errors of the ACL check. How alloy reads an address
is a parameter.
-/

namespace Teecryptor

open Bytes Rust

abbrev Address := FixedBytes 20

/-- The `acp` object of a request's body. -/
structure AcpData where
  issuer : String
  expiration : UInt64
  recipient : String
  revokerData : U256
  revokerContract : String
  scope : UInt8
  contracts : List String
  handles : List String
  sealingKey : String
  issuerSignature : List UInt8
  recipientSignature : List UInt8
  deriving DecidableEq

/-- The permission as the ABI has it. -/
structure ACP where
  issuer : Address
  expiration : UInt64
  recipient : Address
  revokerData : U256
  revokerContract : Address
  scope : UInt8
  contracts : List Address
  handles : List (FixedBytes 32)
  sealingKey : FixedBytes 32
  issuerSignature : List UInt8
  recipientSignature : List UInt8
  deriving DecidableEq

inductive AcpError
  | malformed (msg : String)
  | denied
  | expired
  | badSignature
  | unknownChain (chain : UInt64)
  | misconfigured (msg : String)
  | timeout (after : ℕ)
  | transport (msg : String)
  deriving DecidableEq, Repr

def maxScopeEntries : ℕ := 256

/-- alloy's reading of an address. -/
abbrev AddressParser := String → Except String Address

section Parse

variable (parse : AddressParser)

/-- An address field; the empty string and `0x` stand for the zero address. -/
def parseAddr (label s : String) : Exec AcpError Address :=
  let stripped := (stripPrefix ['0', 'x'] s.toList).getD s.toList
  if stripped = [] then .ok (.zero 20)
  else match parse s with
    | .ok a => .ok a
    | .error e => fail (.malformed s!"{label} address: {e}")

/-- `FixedBytes::from_slice`, which panics on any other length. -/
def fromSlice (n : ℕ) (bytes : List UInt8) : Exec AcpError (FixedBytes n) :=
  if h : bytes.length = n then .ok ⟨bytes, h⟩ else panic (.expect "from_slice length")

/-- A `bytes32` field; short hex is padded on the left, and the empty string, `0x` and `0` stand
for zero. -/
def parseB32 (label s : String) : Exec AcpError (FixedBytes 32) := do
  let stripped := (stripPrefix ['0', 'x'] s.toList).getD s.toList
  if stripped = [] ∨ stripped = ['0'] then
    return .zero 32
  let len := utf8Len stripped
  if len > 64 then
    fail (.malformed s!"{label}: expected at most 32 bytes, got {len} hex chars")
  match hexDecode (padLeft0 64 stripped) with
  | .error e => fail (.malformed s!"{label} hex: {e}")
  | .ok bytes => fromSlice 32 bytes

/-- `f` on each element with its index, up to the first that fails. -/
def tryMapIdx {α β : Type} (f : ℕ → α → Exec AcpError β) : ℕ → List α → Exec AcpError (List β)
  | _, [] => return []
  | i, a :: l => do
    let b ← f i a
    let bs ← tryMapIdx f (i + 1) l
    return b :: bs

/-- `ACP::try_from`: the wire strings to the ABI tuple. -/
def ACP.tryFrom (p : AcpData) : Exec AcpError ACP := do
  let nc := p.contracts.length
  if nc > maxScopeEntries then
    fail (.malformed s!"contracts: {nc} entries exceeds limit of {maxScopeEntries}")
  let nh := p.handles.length
  if nh > maxScopeEntries then
    fail (.malformed s!"handles: {nh} entries exceeds limit of {maxScopeEntries}")
  let contracts ← tryMapIdx (fun i s => parseAddr parse s!"contracts[{i}]" s) 0 p.contracts
  let handles ← tryMapIdx (fun i s => parseB32 s!"handles[{i}]" s) 0 p.handles
  let issuer ← parseAddr parse "issuer" p.issuer
  let recipient ← parseAddr parse "recipient" p.recipient
  let revokerContract ← parseAddr parse "revokerContract" p.revokerContract
  let sealingKey ← parseB32 "sealingKey" p.sealingKey
  return {
    issuer, expiration := p.expiration, recipient, revokerData := p.revokerData, revokerContract,
    scope := p.scope, contracts, handles, sealingKey, issuerSignature := p.issuerSignature,
    recipientSignature := p.recipientSignature }

end Parse

/-! ## What the contract call can answer -/

/-- The reverts of the ACL interface that are told apart. -/
inductive ACLErrors
  | permissionInvalidExpired
  | permissionInvalidIssuerSignature
  | permissionInvalidRecipientSignature
  | permissionInvalidDisabled
  | other (debug : String)
  deriving DecidableEq, Repr

/-- alloy's contract error: what it decodes to under each interface, and its own text. -/
structure ContractError where
  asACLErrors : Option ACLErrors
  asITaskManagerErrors : Option String
  text : String
  deriving DecidableEq, Repr

/-- An RPC under `tokio::time::timeout`. -/
inductive RpcResult (α : Type)
  | ok (a : α)
  | error (e : ContractError)
  | timeout
  deriving DecidableEq, Repr

/-- The error a failed ACL call stands for. -/
def mapContractError (e : ContractError) : AcpError :=
  match e.asACLErrors with
  | some .permissionInvalidExpired => .expired
  | some .permissionInvalidIssuerSignature => .badSignature
  | some .permissionInvalidRecipientSignature => .badSignature
  | some .permissionInvalidDisabled => .denied
  | some (.other debug) => .transport s!"ACL revert: {debug}"
  | none =>
    match e.asITaskManagerErrors with
    | some debug => .transport s!"TaskManager revert: {debug}"
    | none => .transport e.text

/-- One served chain: where its TaskManager is reached, and how long a call may take. -/
structure ChainConfig where
  rpcUrl : String
  taskManager : Address
  timeout : ℕ
  deriving DecidableEq

/-- The served chains, by `host_chain_id`. -/
structure ChainsVerifierConfig where
  chains : UInt64 → Option ChainConfig

def ChainsVerifierConfig.get (cfg : ChainsVerifierConfig) (chain : UInt64) : Option ChainConfig :=
  cfg.chains chain

end Teecryptor
