import Teecryptor.EnvPolicy
import Teecryptor.Router

/-!
# The boot

`main.rs` up to `set_ready`, in a build without `mock`: the configuration from the baked policy and
the environment variables, the TaskManagers resolved through the address book (`permit.rs`), the
probe of the commitment registry (`commitment.rs`), and the state the service then runs on. RPCs,
the key ceremony and the machine answer arbitrarily. A `HashMap` is walked in any order.
-/

namespace Teecryptor

open Interact Bytes Rust

/-- An `eth_call` on the address book: a revert carries what it decodes to. -/
inductive BookReply
  | ok (taskManager : Address)
  | error (revert : Option String) (text : String)
  | timeout
  deriving DecidableEq

/-- The key handles of the reconstructed secret, with the signer's address. -/
structure LoadedKeys where
  keys : KeyStore
  signer : Signer
  evmAddress : String

inductive BootOp
  /-- `ICoFHEAddressBook.getTm`, at the chain's endpoint. -/
  | getTm (rpcUrl : String) (addressBook : Address) (taskManagerId : UInt64) (timeout : ℕ)
  /-- `ICommitmentRegistry.getVersionStatus`. -/
  | getVersionStatus (registry : Address) (version : FixedBytes 32) (timeout : ℕ)
  /-- `load_keys`: federation, the partners' shares, and their reconstruction. -/
  | loadKeys (env : String) (threshold : ℕ)
  /-- `std::thread::available_parallelism`. -/
  | availableParallelism
  deriving DecidableEq

@[reducible] def BootOp.Ans : BootOp → Type
  | getTm _ _ _ _ => BookReply
  | getVersionStatus _ _ _ => RpcResult UInt8
  | loadKeys _ _ => Except String LoadedKeys
  | availableParallelism => Option ℕ

abbrev bootSig : Sig := ⟨BootOp, BootOp.Ans⟩

/-- Boot code, which can stop with an error or panic. -/
abbrev BootTask (α : Type) := ExceptT (Abort BootError) (Prog bootSig) α

def bootCall (o : BootOp) : BootTask o.Ans := ExceptT.lift (Prog.call (S := bootSig) o)

/-- Code without effects, as a step of the boot. -/
def BootTask.ofExec {α : Type} (r : Exec BootError α) : BootTask α := ExceptT.mk (pure r)

/-- The entries of a `HashMap`, in the order it is walked in. -/
def walk {α : Type} (entries : List α) : BootTask (List α) := ExceptT.lift (Prog.anyOrder entries)

/-! ## The environment variables -/

/-- The environment variables that are set to a text. -/
abbrev EnvVars := String → Option String

def envOr (vars : EnvVars) (key default : String) : String := (vars key).getD default

/-- The unsigned integer a variable is set to. -/
def parseVar (key value : String) : Exec BootError ℕ :=
  okOr (.notAnInteger key) (parseUnsigned 64 value)

/-- One entry of `PERMIT_CHAINS_JSON`. -/
structure ChainEntry where
  rpcUrl : String
  timeoutMs : Option UInt64
  retries : Option UInt32

/-- A baked environment of `cofhe-keys`, as far as the boot reads it. -/
structure EnvConfig where
  shamirThreshold : ℕ
  partners : ℕ

/-- The crates the boot calls, and the files compiled in. -/
structure BootCrates where
  service : Crates
  files : EnvFiles
  toml : TomlParser
  /-- `serde_json::from_str`, at the map of `PERMIT_CHAINS_JSON`. -/
  permitChains : String → Except String (List (String × ChainEntry))
  parseUrl : String → Except String Unit
  showAddress : Address → String
  /-- `cofhe_keys::reader::lookup`. -/
  lookup : String → Except String EnvConfig
  /-- `cofhe_keys::shamir::MIN_THRESHOLD`. -/
  minThreshold : ℕ
  /-- `reqwest::ClientBuilder::build`, with a timeout. -/
  buildClient : ℕ → Except String Unit

/-! ## The TaskManagers -/

/-- A chain of `PERMIT_CHAINS_JSON` whose TaskManager is not resolved yet. -/
structure PendingChain where
  rpcUrl : String
  timeout : ℕ
  addressBook : Address
  taskManagerId : UInt64
  retries : ℕ
  deriving DecidableEq

/-- The chains of the entries, each with the TaskManager id the policy has for it. -/
def pendingChains (acl : AclPolicy) : List (String × ChainEntry) → List (UInt64 × PendingChain) →
    Exec BootError (List (UInt64 × PendingChain))
  | [], chains => return chains
  | (key, entry) :: rest, chains => do
    let n ← okOr (.permitChainId key) (parseUnsigned 64 key)
    let chainId := UInt64.ofNat n
    let taskManagerId ← okOr (.noTaskManagerId chainId) (acl.taskManagerId chainId)
    let chain : PendingChain :=
      ⟨entry.rpcUrl, (entry.timeoutMs.getD 5000).toNat, acl.addressBook, taskManagerId,
        (entry.retries.getD 2).toNat⟩
    -- two keys can spell one chain id (`1` and `+1`): the one walked later stays
    pendingChains acl rest ((chainId, chain) :: chains.filter (·.1 ≠ chainId))

/-- The chains to resolve; none if the variable is not set, or set to an empty map. -/
def parsePermitChains (crates : BootCrates) (vars : EnvVars) (acl : AclPolicy) :
    BootTask (Option (List (UInt64 × PendingChain))) :=
  match vars "PERMIT_CHAINS_JSON" with
  | none => return none
  | some raw => do
    let parsed ← BootTask.ofExec (mapErr .permitChainsSyntax (crates.permitChains raw))
    if parsed.isEmpty then return none
    else
      let entries ← walk parsed
      let chains ← BootTask.ofExec (pendingChains acl entries [])
      return some chains

/-- What a failed `getTm` stands for: a revert is the configuration's fault. -/
def mapBookError (crates : BootCrates) (addressBook : Address) (taskManagerId : UInt64)
    (revert : Option String) (text : String) : AcpError :=
  let book := crates.showAddress addressBook
  match revert with
  | some decoded =>
    .misconfigured s!"address book {book} reverted for TaskManager id {taskManagerId}: {decoded}"
  | none => .transport s!"address book {book} getTm({taskManagerId}): {text}"

/-- Another attempt can help. -/
def AcpError.isTransient : AcpError → Bool
  | transport _ => true
  | timeout _ => true
  | _ => false

def bookAnswer (crates : BootCrates) (chain : PendingChain) : BookReply → Except AcpError Address
  | .ok address => .ok address
  | .timeout => .error (.timeout chain.timeout)
  | .error revert text =>
    .error (mapBookError crates chain.addressBook chain.taskManagerId revert text)

/-- The address the book answers for a chain, with at most `retries` more attempts, each after one
that failed for a passing reason. -/
def getTaskManager (crates : BootCrates) (chain : PendingChain) :
    (retries : ℕ) → ExceptT AcpError (Prog bootSig) Address
  | 0 => do
    let reply ← ExceptT.lift (Prog.call (S := bootSig)
      (.getTm chain.rpcUrl chain.addressBook chain.taskManagerId chain.timeout))
    ExceptT.mk (pure (bookAnswer crates chain reply))
  | retries + 1 => do
    let reply ← ExceptT.lift (Prog.call (S := bootSig)
      (.getTm chain.rpcUrl chain.addressBook chain.taskManagerId chain.timeout))
    match bookAnswer crates chain reply with
    | .ok address => return address
    | .error e => if e.isTransient then getTaskManager crates chain retries else throw e

/-- A chain with its TaskManager resolved; the zero address is refused. -/
def ChainConfig.resolve (crates : BootCrates) (chain : PendingChain) :
    ExceptT AcpError (Prog bootSig) ChainConfig :=
  match crates.parseUrl chain.rpcUrl with
  | .error e => throw (.misconfigured s!"rpc_url parse: {e}")
  | .ok () => do
    let taskManager ← getTaskManager crates chain chain.retries
    if taskManager = .zero 20 then
      let book := crates.showAddress chain.addressBook
      let id := chain.taskManagerId
      throw (.misconfigured
        s!"address book {book} returned the zero address for TaskManager id {id}")
    return ⟨chain.rpcUrl, taskManager, chain.timeout⟩

/-- The chains one after the other, up to the first that cannot be resolved. -/
def resolveChains (crates : BootCrates) : List (UInt64 × PendingChain) →
    (UInt64 → Option ChainConfig) → BootTask ChainsVerifierConfig
  | [], chains => return ⟨chains⟩
  | (chainId, chain) :: rest, chains => do
    let cfg ← ExceptT.adapt (fun e => .err (.taskManager chainId e))
      (ChainConfig.resolve crates chain)
    resolveChains crates rest (Function.update chains chainId (some cfg))

def ChainsVerifierConfig.resolve (crates : BootCrates) (pending : List (UInt64 × PendingChain)) :
    BootTask ChainsVerifierConfig := do
  let order ← walk pending
  resolveChains crates order fun _ => none

/-! ## The commitment verifier -/

def versionHexDigits : ℕ := 64

/-- The canonical text of a version: `0x` and 64 lowercase digits. -/
def parseVersion (s : String) : Exec VersionError (FixedBytes 32) :=
  match stripPrefix ['0', 'x'] s.toList with
  | none => fail (.noPrefix s)
  | some digits =>
    if utf8Len digits ≠ versionHexDigits then fail (.badLength (utf8Len digits) s)
    else if digits.any Char.isUpper then fail (.uppercase s)
    else match hexDecode digits with
      | .error e => fail (.notHex e)
      | .ok bytes =>
        if h : bytes.length = 32 then .ok ⟨bytes, h⟩ else panic (.expect "from_slice length")

/-- A verifier in enforcing mode, and its cache. -/
def CommitmentConfig.new (crates : BootCrates) (rpcUrl : String) (registry : Address)
    (version : FixedBytes 32) (timeout : ℕ) (cacheSize : ℕ+) (cacheTtl : ℕ) :
    Except CommitmentError (CommitmentConfig × Lru CommitKey CacheEntry) :=
  match crates.parseUrl rpcUrl with
  | .error e => .error (.misconfigured s!"rpc_url parse: {e}")
  | .ok () => .ok (⟨registry, version, timeout, false, cacheTtl⟩, .empty cacheSize cacheSize.pos)

def CommitmentConfig.withWarnOnly (cfg : CommitmentConfig) (warnOnly : Bool) : CommitmentConfig :=
  { cfg with warnOnly }

def minTimeoutMs : ℕ := 50

/-- `NonZeroUsize::new`. -/
def nonZero (n : ℕ) : Option ℕ+ := if h : 0 < n then some ⟨n, h⟩ else none

/-- The verifier the policy and the variables give; none if no endpoint is set. -/
def parseCommitmentConfig (crates : BootCrates) (vars : EnvVars) (policy : EnvPolicy) :
    Exec BootError (Option (CommitmentConfig × Lru CommitKey CacheEntry)) :=
  match (vars "COMMITMENT_REGISTRY_RPC_URL").filter (· ≠ "") with
  | none => return none
  | some rpcUrl => do
    let commitment ← okOr .noCommitmentPolicy policy.commitment
    let registry ← mapErr .registryAddress
      (crates.service.parseAddress commitment.registryAddress)
    let version ← mapFail .commitmentVersion (parseVersion commitment.version)
    let timeoutMs ← parseVar "COMMITMENT_TIMEOUT_MS" (envOr vars "COMMITMENT_TIMEOUT_MS" "5000")
    bailIf (timeoutMs < minTimeoutMs) (.timeoutTooShort timeoutMs)
    let cacheSize ← parseVar "COMMITMENT_CACHE_SIZE" (envOr vars "COMMITMENT_CACHE_SIZE" "100000")
    let cacheSize ← okOr .cacheSizeZero (nonZero cacheSize)
    let cacheTtlSecs ← parseVar "COMMITMENT_CACHE_TTL_SECS"
      (envOr vars "COMMITMENT_CACHE_TTL_SECS" "3600")
    bailIf (cacheTtlSecs = 0) .cacheTtlZero
    let (cfg, cache) ← mapErr .commitmentVerifier
      (CommitmentConfig.new crates rpcUrl registry version timeoutMs cacheSize
        (1000 * cacheTtlSecs))
    return some (cfg.withWarnOnly commitment.warningInsteadOfEnforcement, cache)

def probeRegistry (cfg : CommitmentConfig) : ExceptT CommitmentError (Prog bootSig) UInt8 := do
  match ← ExceptT.lift (Prog.call (S := bootSig)
    (.getVersionStatus cfg.registry cfg.version cfg.timeout)) with
  | .ok status => return status
  | .error e => throw (.transport e.text)
  | .timeout => throw (.timeout cfg.timeout)

/-! ## The configuration -/

structure Boot.Config where
  env : String
  threshold : ℕ
  ctSourceUrl : String
  getctTimeout : ℕ
  bindAddr : String
  metricsAddr : String
  requirePermit : Bool
  acpVerifier : Option ChainsVerifierConfig
  acpPending : Option (List (UInt64 × PendingChain))
  enableCommitmentVerification : Bool
  commitmentVerifier : Option (CommitmentConfig × Lru CommitKey CacheEntry)
  decryptConcurrency : ℕ
  maxInflight : ℕ
  metricsPush : Bool

def req (vars : EnvVars) (key : String) : Exec BootError String :=
  okOr (.varNotSet key) (vars key)

def validateThreshold (minThreshold threshold partnerCount : ℕ) : Exec BootError Unit := do
  bailIf (threshold < minThreshold) .thresholdTooLow
  bailIf (partnerCount < threshold) (.thresholdTooHigh threshold partnerCount)

/-- The concurrency of decrypts: the variable's, or the machine's parallelism. -/
def concurrencyVar (vars : EnvVars) : BootTask ℕ :=
  match vars "DECRYPT_CONCURRENCY" with
  | some value => BootTask.ofExec (parseVar "DECRYPT_CONCURRENCY" value)
  | none => do
    let parallelism ← bootCall .availableParallelism
    return parallelism.getD 1

/-- The configuration. A gate that is on in the policy and cannot be set up from the variables
stops the boot. -/
def Boot.Config.fromEnv (crates : BootCrates) (vars : EnvVars) : BootTask Boot.Config := do
  let getctTimeoutMs ← BootTask.ofExec
    (parseVar "GETCT_TIMEOUT_MS" (envOr vars "GETCT_TIMEOUT_MS" "5000"))
  let env ← BootTask.ofExec (req vars "COFHE_ENV")
  let envCfg ← BootTask.ofExec (mapErr .unknownEnvironment (crates.lookup env))
  let policy ← BootTask.ofExec (EnvPolicy.forEnv crates.toml crates.files env)
  let acpPending ← parsePermitChains crates vars policy.acl
  BootTask.ofExec (bailIf (policy.requirePermit ∧ acpPending.isNone) .permitChainsMissing)
  let commitmentVerifier ← BootTask.ofExec (parseCommitmentConfig crates vars policy)
  BootTask.ofExec (bailIf (policy.enableCommitmentVerification ∧ commitmentVerifier.isNone)
    .commitmentUnconfigured)
  let decryptConcurrency ← concurrencyVar vars
  let maxInflight ← BootTask.ofExec (parseVar "MAX_INFLIGHT" (envOr vars "MAX_INFLIGHT" "1000"))
  BootTask.ofExec (validateThreshold crates.minThreshold envCfg.shamirThreshold envCfg.partners)
  let ctSourceUrl ← BootTask.ofExec (req vars "CT_SOURCE_URL")
  return {
    env, threshold := envCfg.shamirThreshold, ctSourceUrl, getctTimeout := getctTimeoutMs,
    bindAddr := envOr vars "BIND_ADDR" "0.0.0.0:8080",
    metricsAddr := envOr vars "METRICS_ADDR" "0.0.0.0:9090",
    requirePermit := policy.requirePermit, acpVerifier := none, acpPending,
    enableCommitmentVerification := policy.enableCommitmentVerification, commitmentVerifier,
    decryptConcurrency, maxInflight, metricsPush := policy.metricsPush }

/-- The pending chains are taken, and resolved if the permit gate is on. -/
def Boot.Config.resolveAcp (crates : BootCrates) (cfg : Boot.Config) : BootTask Boot.Config :=
  match cfg.acpPending with
  | none => return cfg
  | some pending =>
    let taken := { cfg with acpPending := none }
    if taken.requirePermit then do
      let verifier ← ChainsVerifierConfig.resolve crates pending
      return { taken with acpVerifier := some verifier }
    else return taken

/-! ## The state -/

/-- The state of the service, without the crates it calls. -/
structure Inner where
  keys : KeyStore
  ready : Bool
  acpVerifier : Option ChainsVerifierConfig
  commitmentVerifier : Option CommitmentConfig
  signer : Option Signer

namespace Inner

/-- `AppState::new`: no gate is on, and the service is not ready. -/
def new (keys : KeyStore) (signer : Option Signer) : Inner := ⟨keys, false, none, none, signer⟩

def withAcpVerifier (inner : Inner) (cfg : ChainsVerifierConfig) : Inner :=
  { inner with acpVerifier := some cfg }

def withCommitmentVerifier (inner : Inner) (cfg : CommitmentConfig) : Inner :=
  { inner with commitmentVerifier := some cfg }

def setReady (inner : Inner) : Inner := { inner with ready := true }

/-- The state as the handlers have it. -/
def state (inner : Inner) (crates : Crates) : AppState :=
  ⟨crates, inner.keys, inner.acpVerifier, inner.commitmentVerifier, inner.signer⟩

end Inner

/-- `Semaphore::MAX_PERMITS`. -/
def maxPermits : ℕ := (2 ^ 64 - 1) / 2 ^ 3

/-- `Semaphore::new`, which panics above `MAX_PERMITS`. -/
def semaphore (permits : ℕ) : Exec BootError ℕ :=
  if permits ≤ maxPermits then .ok permits
  else panic (.expect "a semaphore may not have more than MAX_PERMITS permits")

/-- The service after its boot, and the state its requests share. -/
structure Booted where
  inner : Inner
  evmAddress : String
  shared : Shared

def Booted.service (booted : Booted) (crates : Crates) : Service :=
  ⟨booted.inner.state crates, booted.inner.ready, some booted.evmAddress⟩

def expectAcpVerifier : String := "require_permit but no acp_verifier — bug in Config::from_env"

def expectCommitmentVerifier : String :=
  "enable_commitment_verification but no commitment_verifier — bug in Config::from_env"

/-- The state with its ACP verifier, if the permit gate is on. -/
def installAcp (cfg : Boot.Config) (inner : Inner) : BootTask Inner :=
  if cfg.requirePermit then
    match cfg.acpVerifier with
    | some verifier => return inner.withAcpVerifier verifier
    | none => throw (.panic (.expect expectAcpVerifier))
  else return inner

/-- The state with its commitment verifier, if that gate is on and the registry answers. Without
one, nothing reads the cache. -/
def installCommitment (cfg : Boot.Config) (inner : Inner) :
    BootTask (Inner × Lru CommitKey CacheEntry) :=
  if cfg.enableCommitmentVerification then
    match cfg.commitmentVerifier with
    | some (cv, cache) => do
      let _status ← ExceptT.adapt (fun e => .err (.registryProbe e)) (probeRegistry cv)
      return (inner.withCommitmentVerifier cv, cache)
    | none => throw (.panic (.expect expectCommitmentVerifier))
  else return (inner, .empty 1 Nat.one_pos)

def loadKeys (cfg : Boot.Config) : BootTask LoadedKeys := do
  let loaded ← bootCall (.loadKeys cfg.env cfg.threshold)
  BootTask.ofExec (mapErr .loadKeys loaded)

/-- The boot, up to `set_ready`. -/
def main (crates : BootCrates) (vars : EnvVars) : BootTask Booted := do
  let cfg ← Boot.Config.fromEnv crates vars
  let cfg ← cfg.resolveAcp crates
  let loaded ← loadKeys cfg
  BootTask.ofExec (mapErr .ctSource (crates.buildClient cfg.getctTimeout))
  -- `AppState::new` sizes the CPU gate by the machine, until `with_concurrency` replaces it
  let parallelism ← bootCall .availableParallelism
  let inner ← installAcp cfg (Inner.new loaded.keys (some loaded.signer))
  let (inner, cache) ← installCommitment cfg inner
  let _ ← BootTask.ofExec (semaphore (max cfg.decryptConcurrency 1))
  let _ ← BootTask.ofExec (semaphore (max cfg.maxInflight 1))
  let shared := (Shared.new 0 (parallelism.getD 1) cache).withConcurrency cfg.decryptConcurrency
    cfg.maxInflight
  return ⟨inner.setReady, loaded.evmAddress, shared⟩

end Teecryptor
