import Teecryptor.Commitment

/-!
# The policy baked into the image

`env_policy.rs`, in a build without `mock`: the switches of the two gates, and what an environment
fixes about them. The files are compiled in, and `COFHE_ENV` says which one applies. How `toml`
reads a file is a parameter, and so are the files.
-/

namespace Teecryptor

open Bytes Rust

/-- Why `parse_version` refuses a text. -/
inductive VersionError
  | noPrefix (s : String)
  | badLength (len : ℕ) (s : String)
  | uppercase (s : String)
  | notHex (e : FromHexError)
  deriving DecidableEq

/-- Why a boot stops. -/
inductive BootError
  | varNotSet (key : String)
  | notAnInteger (key : String)
  | unknownEnvironment (msg : String)
  | noBakedPolicy (env : String)
  | policySyntax (env msg : String)
  /-- The commitment switch and the presence of the `[commitment]` block disagree. -/
  | commitmentBlock (env : String) (enabled : Bool)
  /-- A key under `[acl] task_manager_ids` that is not a chain id. -/
  | policyChainId (env key : String)
  | noTaskManagerIds (env : String)
  | permitChainsSyntax (msg : String)
  | permitChainId (key : String)
  | noTaskManagerId (chain : UInt64)
  | permitChainsMissing
  /-- `COMMITMENT_REGISTRY_RPC_URL` is set, and the policy has no `[commitment]` block. -/
  | noCommitmentPolicy
  | registryAddress (msg : String)
  | commitmentVersion (e : VersionError)
  | timeoutTooShort (ms : ℕ)
  | cacheSizeZero
  | cacheTtlZero
  | commitmentVerifier (e : CommitmentError)
  | commitmentUnconfigured
  | thresholdTooLow
  | thresholdTooHigh (threshold partners : ℕ)
  | taskManager (chain : UInt64) (e : AcpError)
  | loadKeys (msg : String)
  | ctSource (msg : String)
  | registryProbe (e : CommitmentError)
  deriving DecidableEq

/-- The address book, at one address on every host chain:
`0xC0F4e00E531a2B086492Ae3DCC1515038307196b`. -/
def cofheAddressBook : Address :=
  .ofNat 20 0xC0F4e00E531a2B086492Ae3DCC1515038307196b

structure AclPolicy where
  addressBook : Address
  /-- `host_chain_id` to TaskManager id, with the chain ids as text. -/
  taskManagerIds : List (String × UInt64)
  defaultTaskManagerId : Option UInt64
  deriving DecidableEq

/-- The TaskManager id to resolve for a chain. -/
def AclPolicy.taskManagerId (acl : AclPolicy) (chainId : UInt64) : Option UInt64 :=
  (acl.taskManagerIds.lookup (toString chainId.toNat)).or acl.defaultTaskManagerId

structure CommitmentPolicy where
  version : String
  registryAddress : String
  warningInsteadOfEnforcement : Bool
  deriving DecidableEq

structure EnvPolicy where
  requirePermit : Bool
  enableCommitmentVerification : Bool
  commitment : Option CommitmentPolicy
  metricsPush : Bool
  acl : AclPolicy
  deriving DecidableEq

/-- What a policy file can set: the derived reader skips the address book and the default id. -/
structure PolicyDocument where
  requirePermit : Bool
  enableCommitmentVerification : Bool
  commitment : Option CommitmentPolicy
  metricsPush : Bool
  taskManagerIds : List (String × UInt64)
  deriving DecidableEq

/-- `toml::from_str`. -/
abbrev TomlParser := String → Except String PolicyDocument

namespace EnvPolicy

/-- The document with the skipped fields at their defaults. -/
def ofDocument (doc : PolicyDocument) : EnvPolicy where
  requirePermit := doc.requirePermit
  enableCommitmentVerification := doc.enableCommitmentVerification
  commitment := doc.commitment
  metricsPush := doc.metricsPush
  acl := ⟨cofheAddressBook, doc.taskManagerIds, none⟩

/-- The keys of `task_manager_ids`, up to the first that is no chain id. -/
def checkChainIds (env : String) : List (String × UInt64) → Exec BootError Unit
  | [] => return ()
  | (key, _) :: rest => do
    let _ ← okOr (.policyChainId env key) (parseUnsigned 64 key)
    checkChainIds env rest

/-- Reads and validates one policy file. -/
def parse (toml : TomlParser) (raw env : String) : Exec BootError EnvPolicy := do
  let doc ← mapErr (.policySyntax env) (toml raw)
  let policy := ofDocument doc
  bailIf (policy.enableCommitmentVerification ≠ policy.commitment.isSome)
    (.commitmentBlock env policy.enableCommitmentVerification)
  checkChainIds env policy.acl.taskManagerIds
  bailIf (policy.requirePermit ∧ policy.acl.taskManagerIds = []) (.noTaskManagerIds env)
  return policy

end EnvPolicy

/-- The policy files compiled in. -/
structure EnvFiles where
  staging : String
  testnet : String
  mainnet : String

/-- The policy of an environment; one that has no file is refused. -/
def EnvPolicy.forEnv (toml : TomlParser) (files : EnvFiles) (env : String) :
    Exec BootError EnvPolicy :=
  if env = "staging" then parse toml files.staging env
  else if env = "testnet" then parse toml files.testnet env
  else if env = "mainnet" then parse toml files.mainnet env
  else fail (.noBakedPolicy env)

end Teecryptor
