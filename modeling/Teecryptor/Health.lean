import Teecryptor.Commitment
import Teecryptor.Lib.System

/-!
# The dependencies' health

`metrics/health.rs`: what the last probe of each dependency said, in atomics that the probe loop of
`main.rs` writes and the gauges read when the metrics are collected. The two lists are fixed at
boot; what can change is one byte for each entry. Probes answer arbitrarily.
-/

namespace Teecryptor

open Interact Rust

namespace Health

def down : UInt8 := 0

def up : UInt8 := 1

/-- Published like `down`; no probe result is equal to it. -/
def unprobed : UInt8 := 2

def ctSource : String := "ct_source"

def commitmentRegistry : String := "commitment_registry"

end Health

/-- What the health state has atomics for. -/
structure Health where
  named : List String
  /-- Each chain with its label. -/
  chains : List (UInt64 × String)

/-- The atomic of an entry of the one list or the other. -/
inductive HealthCell
  | named (i : ℕ)
  | chain (i : ℕ)
  deriving DecidableEq

/-- The label a log line or a series carries. -/
inductive HealthLabel
  | dependency (name : String)
  | hostChainId (label : String)
  deriving DecidableEq

/-- ct-server's answer to `GET /Health`. -/
inductive HealthReply
  | sendError
  | status (status : ℕ)

inductive HealthOp
  /-- The next tick of the probe interval. -/
  | tick
  | probeCtSource
  /-- `ICommitmentRegistry.getVersionStatus`. -/
  | getVersionStatus (registry : Address) (version : FixedBytes 32) (timeout : ℕ)
  /-- `ITaskManager.getVersion`, on the chain `chainId`. -/
  | getVersion (chainId : UInt64) (chain : ChainConfig)
  | swap (cell : HealthCell) (new : UInt8)
  | load (cell : HealthCell)
  | log (label : HealthLabel) (up : Bool)
  deriving DecidableEq

@[reducible] def HealthOp.Ans : HealthOp → Type
  | tick => Unit
  | probeCtSource => HealthReply
  | getVersionStatus _ _ _ => RpcResult UInt8
  | getVersion _ _ => RpcResult Unit
  | swap _ _ => UInt8
  | load _ => UInt8
  | log _ _ => Unit

abbrev healthSig : Sig := ⟨HealthOp, HealthOp.Ans⟩

abbrev HealthTask (α : Type) := Prog healthSig α

def healthCall (o : HealthOp) : HealthTask o.Ans := Prog.call (S := healthSig) o

/-- The atomics: swaps and loads answer what they hold. -/
def atomics : Machine healthSig where
  State := HealthCell → UInt8
  perform := fun s o x s' =>
    match o with
    | .swap cell new => x = s cell ∧ s' = Function.update s cell new
    | .load cell => x = s cell ∧ s' = s
    | _ => s' = s
  env := fun _ _ => False
  release := fun s _ => s

/-! ## The probes -/

def HealthReply.isSuccess : HealthReply → Bool
  | .sendError => false
  | .status s => 200 ≤ s ∧ s < 300

def RpcResult.answered {α : Type} : RpcResult α → Bool
  | .ok _ => true
  | .error _ => false
  | .timeout => false

/-- `CtSource::probe`. -/
def probeCtSource : HealthTask Bool := do
  return (← healthCall .probeCtSource).isSuccess

/-- `CommitmentConfig::probe`. -/
def CommitmentConfig.probe (cfg : CommitmentConfig) : HealthTask Bool := do
  return (← healthCall (.getVersionStatus cfg.registry cfg.version cfg.timeout)).answered

/-- `ChainConfig::probe`. -/
def ChainConfig.probe (chainId : UInt64) (chain : ChainConfig) : HealthTask Bool := do
  return (← healthCall (.getVersion chainId chain)).answered

/-! ## What the probes say -/

namespace Health

/-- A `debug_assert!` that fails. -/
def assertFailed (debugAssertions : Bool) (msg : String) : ExceptT Panic (Prog healthSig) Unit :=
  if debugAssertions then throw (.expect msg) else pure ()

/-- The state of a dependency after a probe. -/
def code (isUp : Bool) : UInt8 := if isUp then up else down

/-- Stores a probe result; says whether it changed. -/
def transition (cell : HealthCell) (isUp : Bool) : HealthTask Bool := do
  let new := code isUp
  let old ← healthCall (.swap cell new)
  return old ≠ new

/-- `Health::new`. -/
def new (dependencies : List String) (chainIds : List UInt64) : Health :=
  ⟨dependencies, chainIds.map fun id => (id, toString id)⟩

variable (debugAssertions : Bool) (health : Health)

def record (cell : HealthCell) (label : HealthLabel) (isUp : Bool) : HealthTask Unit := do
  if ← transition cell isUp then healthCall (.log label isUp)

def set (dependency : String) (isUp : Bool) : ExceptT Panic (Prog healthSig) Unit :=
  match health.named.findIdx? (· = dependency) with
  | some i => ExceptT.lift (record (.named i) (.dependency dependency) isUp)
  | none => assertFailed debugAssertions s!"unregistered dependency: {dependency}"

def setChain (chainId : UInt64) (isUp : Bool) : ExceptT Panic (Prog healthSig) Unit :=
  match health.chains.findIdx? (·.1 = chainId) with
  | some i =>
    let label := ((health.chains[i]?).map (·.2)).getD ""
    ExceptT.lift (record (.chain i) (.hostChainId label) isUp)
  | none => assertFailed debugAssertions s!"unregistered chain: {chainId}"

/-! ## The gauges -/

def namedCells : List HealthCell := (List.range health.named.length).map .named

def chainCells : List HealthCell := (List.range health.chains.length).map .chain

/-- `iter().all(..)`: the first that is not up ends it. -/
def allUp : List HealthCell → HealthTask Bool
  | [] => return true
  | cell :: cells => do
    if (← healthCall (.load cell)) = up then allUp cells else return false

def healthy : HealthTask Bool := do
  if ← allUp health.namedCells then allUp health.chainCells else return false

/-- The values a gauge's callback observes, one for each entry. -/
def observeAll : List (HealthCell × HealthLabel) → HealthTask (List (HealthLabel × Bool))
  | [] => return []
  | (cell, label) :: entries => do
    let value ← healthCall (.load cell)
    let values ← observeAll entries
    return (label, value = up) :: values

/-- The callback of `teecryptor_dependency_up`. -/
def dependencyUp : HealthTask (List (HealthLabel × Bool)) :=
  observeAll (health.namedCells.zip (health.named.map .dependency))

/-- The callback of `teecryptor_acp_rpc_up`. -/
def acpRpcUp : HealthTask (List (HealthLabel × Bool)) :=
  observeAll (health.chainCells.zip (health.chains.map fun chain => .hostChainId chain.2))

end Health

/-! ## The probe loop -/

/-- What a deployment probes besides ct-server. The chains are the entries of a `HashMap`, in the
order it is walked in. -/
structure Probed where
  commitment : Option CommitmentConfig
  acp : Option (List (UInt64 × ChainConfig))
  nodup : ((acp.getD []).map (·.1)).Nodup

/-- The chains the metrics are labelled with. -/
def servedChains (p : Probed) : List UInt64 := (p.acp.getD []).map (·.1)

/-- What `main` registers: ct-server, and the registry if there is one, and the served chains. -/
def registered (p : Probed) : Health :=
  let probed := [Health.ctSource]
  let probed := if p.commitment.isSome then probed ++ [Health.commitmentRegistry] else probed
  Health.new probed (servedChains p)

section

variable (debugAssertions : Bool) (health : Health)

/-- `for (chain_id, chain) in &chains.chains`. -/
def probeChains : List (UInt64 × ChainConfig) → ExceptT Panic (Prog healthSig) Unit
  | [] => return ()
  | (chainId, chain) :: chains => do
    let isUp ← ExceptT.lift (chain.probe chainId)
    health.setChain debugAssertions chainId isUp
    probeChains chains

def probeRound (p : Probed) : ExceptT Panic (Prog healthSig) Unit := do
  ExceptT.lift (healthCall .tick)
  let isUp ← ExceptT.lift probeCtSource
  health.set debugAssertions Health.ctSource isUp
  match p.commitment with
  | some cv =>
    let isUp ← ExceptT.lift cv.probe
    health.set debugAssertions Health.commitmentRegistry isUp
  | none => pure ()
  match p.acp with
  | some chains => probeChains debugAssertions health chains
  | none => pure ()

/-- The first rounds of `probe_dependencies`, which has no end. -/
def probeDependencies (p : Probed) : ℕ → ExceptT Panic (Prog healthSig) Unit
  | 0 => return ()
  | rounds + 1 => do
    probeRound debugAssertions health p
    probeDependencies p rounds

end

/-- What runs over the health state. -/
inductive HealthJob
  | probeDependencies (rounds : ℕ)
  | dependencyUp
  | acpRpcUp
  | healthy

inductive Observed
  | probed (r : Except Panic Unit)
  | series (values : List (HealthLabel × Bool))
  | verdict (healthy : Bool)

def observeHealth (debugAssertions : Bool) (p : Probed) : HealthJob → HealthTask Observed
  | .probeDependencies rounds => do
    return .probed (← (probeDependencies debugAssertions (registered p) p rounds).run)
  | .dependencyUp => do return .series (← (registered p).dependencyUp)
  | .acpRpcUp => do return .series (← (registered p).acpRpcUp)
  | .healthy => do return .verdict (← (registered p).healthy)

end Teecryptor
