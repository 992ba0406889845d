import Teecryptor.Boot
import Teecryptor.Proofs.Soundness

/-!
# A boot ends with the policy's gates, or fails

Every path through the configuration either sets up a gate that the policy has on or stops the
boot. So a service that becomes ready has the gates of its baked policy and no others, whatever the
environment variables and the RPCs say (`boot_gated`).
-/

namespace Teecryptor

open Interact Interact.Prog Bytes Rust

/-! ## The policy -/

/-- What holds of every policy that `EnvPolicy::parse` accepts. -/
structure EnvPolicy.Valid (policy : EnvPolicy) : Prop where
  addressBook : policy.acl.addressBook = cofheAddressBook
  noDefault : policy.acl.defaultTaskManagerId = none
  commitment : policy.enableCommitmentVerification = policy.commitment.isSome
  ids : policy.requirePermit → policy.acl.taskManagerIds ≠ []

theorem EnvPolicy.valid_parse {toml : TomlParser} {raw env : String} {policy : EnvPolicy}
    (h : EnvPolicy.parse toml raw env = .ok policy) : policy.Valid := by
  unfold EnvPolicy.parse at h
  obtain ⟨doc, -, h⟩ := bind_eq_ok.1 h
  obtain ⟨_, hblock, h⟩ := bind_eq_ok.1 h
  obtain ⟨-, -, h⟩ := bind_eq_ok.1 h
  obtain ⟨_, hids, h⟩ := bind_eq_ok.1 h
  cases h
  exact ⟨rfl, rfl, not_not.1 (bailIf_eq_ok.1 hblock), fun hreq hnil =>
    bailIf_eq_ok.1 hids ⟨hreq, hnil⟩⟩

theorem EnvPolicy.forEnv_parse {toml : TomlParser} {files : EnvFiles} {env : String}
    {policy : EnvPolicy} (h : EnvPolicy.forEnv toml files env = .ok policy) :
    ∃ raw, EnvPolicy.parse toml raw env = .ok policy := by
  unfold EnvPolicy.forEnv at h
  split_ifs at h
  · exact ⟨_, h⟩
  · exact ⟨_, h⟩
  · exact ⟨_, h⟩
  · cases h

/-! ## Runs of the boot -/

section Runs

variable {α β : Type} {tr : Trace bootSig}

theorem run_bootExec {r x : Exec BootError α} :
    Run (BootTask.ofExec r).run tr x ↔ tr = [] ∧ x = r :=
  run_pure

theorem run_bootExecBind {r : Exec BootError α} {f : α → BootTask β} {b : β}
    (h : Run (BootTask.ofExec r >>= f).run tr (.ok b)) :
    ∃ a, r = .ok a ∧ Run (f a).run tr (.ok b) := by
  obtain ⟨tr₁, tr₂, a, rfl, h₁, h₂⟩ := run_exceptBind_ok h
  obtain ⟨rfl, ha⟩ := run_bootExec.1 h₁
  exact ⟨a, ha.symm, h₂⟩

theorem run_walk {l l' : List α} (h : Run (walk l).run tr (.ok l')) : tr = [] ∧ l'.Perm l :=
  run_anyOrder (run_lift_ok.1 h)

end Runs

/-! ## The TaskManagers -/

section Chains

variable {crates : BootCrates} {vars : EnvVars} {acl : AclPolicy} {tr : Trace bootSig}

/-- The chain is queried through the policy's address book, for the id the policy has for it. -/
def PendingChain.Pinned (acl : AclPolicy) (chainId : UInt64) (chain : PendingChain) : Prop :=
  chain.addressBook = acl.addressBook ∧ acl.taskManagerId chainId = some chain.taskManagerId

theorem pendingChains_ok {entries : List (String × ChainEntry)}
    {chains out : List (UInt64 × PendingChain)}
    (hchains : ∀ q ∈ chains, q.2.Pinned acl q.1)
    (h : pendingChains acl entries chains = .ok out) :
    (∀ q ∈ out, q.2.Pinned acl q.1) ∧ (entries ≠ [] ∨ chains ≠ [] → out ≠ []) := by
  induction entries generalizing chains with
  | nil =>
    cases h
    exact ⟨hchains, by simp⟩
  | cons entry rest ih =>
    obtain ⟨key, entry⟩ := entry
    obtain ⟨n, -, h⟩ := bind_eq_ok.1 h
    obtain ⟨id, hid, h⟩ := bind_eq_ok.1 h
    obtain ⟨hpinned, hne⟩ := ih (by
      intro q hq
      rcases List.mem_cons.1 hq with rfl | hq
      · exact ⟨rfl, okOr_eq_ok.1 hid⟩
      · exact hchains q (List.mem_of_mem_filter hq)) h
    exact ⟨hpinned, fun _ => hne (.inr (List.cons_ne_nil _ _))⟩

theorem parsePermitChains_ok {pending : List (UInt64 × PendingChain)}
    (h : Run (parsePermitChains crates vars acl).run tr (.ok (some pending))) :
    (∀ q ∈ pending, q.2.Pinned acl q.1) ∧ pending ≠ [] := by
  unfold parsePermitChains at h
  split at h
  · cases (run_exceptPure.1 h).2
  obtain ⟨parsed, -, h⟩ := run_bootExecBind h
  split_ifs at h with hempty
  · cases (run_exceptPure.1 h).2
  obtain ⟨tr₁, tr₂, entries, rfl, hwalk, h⟩ := run_exceptBind_ok h
  obtain ⟨chains, hchains, h⟩ := run_bootExecBind h
  cases (run_exceptPure.1 h).2
  obtain ⟨hpinned, hne⟩ := pendingChains_ok (by simp) hchains
  refine ⟨hpinned, hne (.inl fun hnil => hempty ?_)⟩
  rw [hnil] at hwalk
  rw [List.isEmpty_iff]
  exact (run_walk hwalk).2.symm.eq_nil

/-- The event in which the address book answers `address` for a chain. -/
def PendingChain.answered (chain : PendingChain) (address : Address) : Event bootSig :=
  ⟨.getTm chain.rpcUrl chain.addressBook chain.taskManagerId chain.timeout, .ok address⟩

theorem bookAnswer_eq_ok {chain : PendingChain} {reply : BookReply} {address : Address} :
    bookAnswer crates chain reply = .ok address ↔ reply = .ok address := by
  cases reply <;> simp [bookAnswer]

/-- An address is one the book answered, at the first attempt or a later one. -/
theorem getTaskManager_ok {chain : PendingChain} {retries : ℕ} {address : Address}
    (h : Run (getTaskManager crates chain retries).run tr (.ok address)) :
    chain.answered address ∈ tr := by
  induction retries generalizing tr with
  | zero =>
    obtain ⟨tr₁, tr₂, reply, rfl, hcall, h⟩ := run_liftBind.1 h
    obtain ⟨rfl, ha⟩ := run_pure.1 h
    rw [run_call.1 hcall, bookAnswer_eq_ok.1 ha.symm]
    exact List.mem_singleton_self _
  | succ retries ih =>
    obtain ⟨tr₁, tr₂, reply, rfl, hcall, h⟩ := run_liftBind.1 h
    split at h
    next a ha =>
      cases (run_exceptPure.1 h).2
      rw [run_call.1 hcall, bookAnswer_eq_ok.1 ha]
      exact List.mem_append_left _ (List.mem_singleton_self _)
    next e he =>
      split_ifs at h
      · exact List.mem_append_right _ (ih h)
      · cases (run_throw.1 h).2

/-- The chain is served through a TaskManager that the address book named. -/
structure ChainConfig.Resolved (chain : PendingChain) (tr : Trace bootSig) (cfg : ChainConfig) :
    Prop where
  rpcUrl : cfg.rpcUrl = chain.rpcUrl
  timeout : cfg.timeout = chain.timeout
  nonzero : cfg.taskManager ≠ .zero 20
  answered : chain.answered cfg.taskManager ∈ tr

theorem resolve_ok {chain : PendingChain} {cfg : ChainConfig}
    (h : Run (ChainConfig.resolve crates chain).run tr (.ok cfg)) : cfg.Resolved chain tr := by
  unfold ChainConfig.resolve at h
  split at h
  · cases (run_throw.1 h).2
  obtain ⟨tr₁, tr₂, taskManager, rfl, hget, h⟩ := run_exceptBind_ok h
  simp only at h
  split_ifs at h with hzero
  · obtain ⟨tr₃, tr₄, u, rfl, hthrow, -⟩ := run_exceptBind_ok h
    cases (run_throw.1 hthrow).2
  · cases (run_exceptPure.1 h).2
    exact ⟨rfl, rfl, hzero, List.mem_append_left _ (getTaskManager_ok hget)⟩

/-- What is resolved for a chain before, or from the list, is what the verifier serves for it, and
every chain of the list is served. -/
theorem resolveChains_ok {order : List (UInt64 × PendingChain)}
    {chains : UInt64 → Option ChainConfig} {verifier : ChainsVerifierConfig}
    (h : Run (resolveChains crates order chains).run tr (.ok verifier)) :
    (∀ chainId cfg, verifier.get chainId = some cfg → chains chainId = some cfg
      ∨ ∃ chain, (chainId, chain) ∈ order ∧ cfg.Resolved chain tr)
    ∧ ∀ chainId, (chains chainId).isSome ∨ (∃ chain, (chainId, chain) ∈ order) →
      (verifier.get chainId).isSome := by
  induction order generalizing chains tr with
  | nil =>
    cases (run_exceptPure.1 h).2
    exact ⟨fun chainId cfg hget => .inl hget, by simp [ChainsVerifierConfig.get]⟩
  | cons q rest ih =>
    obtain ⟨chainId, chain⟩ := q
    obtain ⟨tr₁, tr₂, cfg, rfl, hcfg, h⟩ := run_exceptBind_ok h
    have hresolved := resolve_ok (run_adapt_ok.1 hcfg)
    obtain ⟨hfrom, hserved⟩ := ih h
    refine ⟨fun id c hget => ?_, fun id hid => hserved id ?_⟩
    · rcases hfrom id c hget with hold | ⟨ch, hmem, hres⟩
      · by_cases hne : id = chainId
        · subst hne
          rw [Function.update_self] at hold
          cases hold
          refine .inr ⟨chain, List.mem_cons_self .., ?_⟩
          exact ⟨hresolved.rpcUrl, hresolved.timeout, hresolved.nonzero,
            List.mem_append_left _ hresolved.answered⟩
        · rw [Function.update_of_ne hne] at hold
          exact .inl hold
      · refine .inr ⟨ch, List.mem_cons_of_mem _ hmem, ?_⟩
        exact ⟨hres.rpcUrl, hres.timeout, hres.nonzero, List.mem_append_right _ hres.answered⟩
    · by_cases hne : id = chainId
      · subst hne
        exact .inl (by rw [Function.update_self]; rfl)
      · rw [Function.update_of_ne hne]
        rcases hid with hid | ⟨ch, hmem⟩
        · exact .inl hid
        · rcases List.mem_cons.1 hmem with heq | hmem
          · cases heq
            exact absurd rfl hne
          · exact .inr ⟨ch, hmem⟩

theorem resolve_chains_ok {pending : List (UInt64 × PendingChain)}
    {verifier : ChainsVerifierConfig}
    (h : Run (ChainsVerifierConfig.resolve crates pending).run tr (.ok verifier)) :
    (∀ chainId cfg, verifier.get chainId = some cfg →
      ∃ chain, (chainId, chain) ∈ pending ∧ cfg.Resolved chain tr)
    ∧ ∀ q ∈ pending, (verifier.get q.1).isSome := by
  obtain ⟨tr₁, tr₂, order, rfl, hwalk, hrest⟩ := run_exceptBind_ok h
  obtain ⟨rfl, hperm⟩ := run_walk hwalk
  obtain ⟨hfrom, hserved⟩ := resolveChains_ok hrest
  refine ⟨fun chainId cfg hget => ?_, fun q hq => hserved q.1 (.inr ⟨q.2, hperm.mem_iff.2 hq⟩)⟩
  rcases hfrom chainId cfg hget with hnone | ⟨chain, hmem, hres⟩
  · cases hnone
  · exact ⟨chain, hperm.mem_iff.1 hmem, hres⟩

end Chains

/-! ## The commitment verifier -/

/-- The verifier is set up as the policy's `[commitment]` block says. -/
structure CommitmentConfig.Follows (crates : BootCrates) (commitment : CommitmentPolicy)
    (cfg : CommitmentConfig) : Prop where
  registry : crates.service.parseAddress commitment.registryAddress = .ok cfg.registry
  version : parseVersion commitment.version = .ok cfg.version
  warnOnly : cfg.warnOnly = commitment.warningInsteadOfEnforcement

theorem parseCommitmentConfig_ok {crates : BootCrates} {vars : EnvVars} {policy : EnvPolicy}
    {cfg : CommitmentConfig} {cache : Lru CommitKey CacheEntry}
    (h : parseCommitmentConfig crates vars policy = .ok (some (cfg, cache))) :
    ∃ commitment, policy.commitment = some commitment ∧ cfg.Follows crates commitment := by
  unfold parseCommitmentConfig at h
  split at h
  · cases h
  obtain ⟨commitment, hblock, h⟩ := bind_eq_ok.1 h
  obtain ⟨registry, hregistry, h⟩ := bind_eq_ok.1 h
  obtain ⟨version, hversion, h⟩ := bind_eq_ok.1 h
  obtain ⟨timeoutMs, -, h⟩ := bind_eq_ok.1 h
  obtain ⟨-, -, h⟩ := bind_eq_ok.1 h
  obtain ⟨size, -, h⟩ := bind_eq_ok.1 h
  obtain ⟨cacheSize, -, h⟩ := bind_eq_ok.1 h
  obtain ⟨ttl, -, h⟩ := bind_eq_ok.1 h
  obtain ⟨-, -, h⟩ := bind_eq_ok.1 h
  obtain ⟨⟨cfg', cache'⟩, hnew, h⟩ := bind_eq_ok.1 h
  have hnew := mapErr_eq_ok.1 hnew
  unfold CommitmentConfig.new at hnew
  split at hnew
  · cases hnew
  · cases hnew
    cases h
    exact ⟨commitment, okOr_eq_ok.1 hblock, mapErr_eq_ok.1 hregistry, mapFail_eq_ok.1 hversion, rfl⟩

/-! ## The configuration -/

section Config

variable {crates : BootCrates} {vars : EnvVars} {policy : EnvPolicy} {tr : Trace bootSig}

/-- The switches are the policy's, and a gate that is on has what it is set up from. -/
structure Boot.Config.Follows (crates : BootCrates) (policy : EnvPolicy) (cfg : Boot.Config) :
    Prop where
  requirePermit : cfg.requirePermit = policy.requirePermit
  enabled : cfg.enableCommitmentVerification = policy.enableCommitmentVerification
  pendingSet : cfg.requirePermit → cfg.acpPending.isSome
  pinned : ∀ pending, cfg.acpPending = some pending →
    (∀ q ∈ pending, q.2.Pinned policy.acl q.1) ∧ pending ≠ []
  verifierSet : cfg.enableCommitmentVerification → cfg.commitmentVerifier.isSome
  follows : ∀ cv, cfg.commitmentVerifier = some cv →
    ∃ commitment, policy.commitment = some commitment ∧ cv.1.Follows crates commitment

theorem fromEnv_ok {cfg : Boot.Config}
    (h : Run (Boot.Config.fromEnv crates vars).run tr (.ok cfg)) :
    ∃ env policy, vars "COFHE_ENV" = some env
      ∧ EnvPolicy.forEnv crates.toml crates.files env = .ok policy
      ∧ cfg.Follows crates policy := by
  unfold Boot.Config.fromEnv at h
  obtain ⟨getctTimeoutMs, -, h⟩ := run_bootExecBind h
  obtain ⟨env, henv, h⟩ := run_bootExecBind h
  obtain ⟨envCfg, -, h⟩ := run_bootExecBind h
  obtain ⟨policy, hpolicy, h⟩ := run_bootExecBind h
  obtain ⟨tr₁, tr₂, pending, rfl, hpending, h⟩ := run_exceptBind_ok h
  obtain ⟨_, hbail, h⟩ := run_bootExecBind h
  obtain ⟨cv, hcv, h⟩ := run_bootExecBind h
  obtain ⟨_, hbail', h⟩ := run_bootExecBind h
  obtain ⟨tr₃, tr₄, concurrency, rfl, -, h⟩ := run_exceptBind_ok h
  obtain ⟨maxInflight, -, h⟩ := run_bootExecBind h
  obtain ⟨_, -, h⟩ := run_bootExecBind h
  obtain ⟨ctSourceUrl, -, h⟩ := run_bootExecBind h
  cases (run_exceptPure.1 h).2
  have hset := bailIf_eq_ok.1 hbail
  have hset' := bailIf_eq_ok.1 hbail'
  refine ⟨env, policy, okOr_eq_ok.1 henv, hpolicy, rfl, rfl, fun hreq => ?_, fun p hp => ?_,
    fun hon => ?_, fun c hc => ?_⟩
  · exact Option.isSome_iff_ne_none.2 fun hnone => hset ⟨hreq, Option.isNone_iff_eq_none.2 hnone⟩
  · simp only at hp
    subst hp
    exact parsePermitChains_ok hpending
  · exact Option.isSome_iff_ne_none.2 fun hnone => hset' ⟨hon, Option.isNone_iff_eq_none.2 hnone⟩
  · simp only at hc
    subst hc
    exact parseCommitmentConfig_ok hcv

/-- The verifier serves some chain, and each only through the TaskManager that the policy's
address book answered for the id the policy has for the chain. -/
structure ChainsVerifierConfig.Named (acl : AclPolicy) (tr : Trace bootSig)
    (verifier : ChainsVerifierConfig) : Prop where
  nonempty : ∃ chainId cfg, verifier.get chainId = some cfg
  named : ∀ chainId cfg, verifier.get chainId = some cfg → cfg.taskManager ≠ .zero 20
    ∧ ∃ id, acl.taskManagerIds.lookup (toString chainId.toNat) = some id
      ∧ (⟨.getTm cfg.rpcUrl acl.addressBook id cfg.timeout, .ok cfg.taskManager⟩ : Event bootSig)
        ∈ tr

theorem resolve_named {acl : AclPolicy} {pending : List (UInt64 × PendingChain)}
    {verifier : ChainsVerifierConfig} (hdefault : acl.defaultTaskManagerId = none)
    (hpinned : ∀ q ∈ pending, q.2.Pinned acl q.1) (hne : pending ≠ [])
    (h : Run (ChainsVerifierConfig.resolve crates pending).run tr (.ok verifier)) :
    verifier.Named acl tr := by
  obtain ⟨hfrom, hserved⟩ := resolve_chains_ok h
  obtain ⟨q, hq⟩ := List.exists_mem_of_ne_nil pending hne
  obtain ⟨cfg, hcfg⟩ := Option.isSome_iff_exists.1 (hserved q hq)
  refine ⟨⟨q.1, cfg, hcfg⟩, fun chainId cfg hget => ?_⟩
  obtain ⟨chain, hmem, hres⟩ := hfrom chainId cfg hget
  obtain ⟨hbook, hid⟩ := hpinned _ hmem
  refine ⟨hres.nonzero, chain.taskManagerId, ?_, ?_⟩
  · simpa [AclPolicy.taskManagerId, hdefault] using hid
  · have hanswered := hres.answered
    unfold PendingChain.answered at hanswered
    rw [hres.rpcUrl, hres.timeout, ← hbook]
    exact hanswered

/-- As `Config.Follows`, with the TaskManagers resolved if the permit gate is on. -/
structure Boot.Config.Resolved (crates : BootCrates) (policy : EnvPolicy) (tr : Trace bootSig)
    (cfg : Boot.Config) : Prop where
  requirePermit : cfg.requirePermit = policy.requirePermit
  enabled : cfg.enableCommitmentVerification = policy.enableCommitmentVerification
  named : cfg.requirePermit → ∃ verifier, cfg.acpVerifier = some verifier
    ∧ verifier.Named policy.acl tr
  verifierSet : cfg.enableCommitmentVerification → cfg.commitmentVerifier.isSome
  follows : ∀ cv, cfg.commitmentVerifier = some cv →
    ∃ commitment, policy.commitment = some commitment ∧ cv.1.Follows crates commitment

theorem resolveAcp_ok {cfg cfg' : Boot.Config} (hdefault : policy.acl.defaultTaskManagerId = none)
    (hcfg : cfg.Follows crates policy)
    (h : Run (cfg.resolveAcp crates).run tr (.ok cfg')) : cfg'.Resolved crates policy tr := by
  unfold Boot.Config.resolveAcp at h
  split at h
  next hnone =>
    cases (run_exceptPure.1 h).2
    refine ⟨hcfg.requirePermit, hcfg.enabled, fun hreq => ?_, hcfg.verifierSet, hcfg.follows⟩
    have hsome := hcfg.pendingSet hreq
    simp [hnone] at hsome
  next pending hpending =>
    obtain ⟨hpinned, hne⟩ := hcfg.pinned pending hpending
    simp only at h
    split_ifs at h with hreq
    · obtain ⟨tr₁, tr₂, verifier, rfl, hverifier, h⟩ := run_exceptBind_ok h
      obtain ⟨rfl, hr⟩ := run_exceptPure.1 h
      cases hr
      rw [List.append_nil]
      have hnamed := resolve_named hdefault hpinned hne hverifier
      exact ⟨hcfg.requirePermit, hcfg.enabled, fun _ => ⟨verifier, rfl, hnamed⟩,
        hcfg.verifierSet, hcfg.follows⟩
    · cases (run_exceptPure.1 h).2
      exact ⟨hcfg.requirePermit, hcfg.enabled, fun hon => absurd hon hreq, hcfg.verifierSet,
        hcfg.follows⟩

end Config

/-! ## What cannot panic -/

theorem parseVersion_noPanic (s : String) : NoPanic (parseVersion s) := by
  unfold parseVersion
  split
  · exact noPanic_fail _
  next digits hdigits =>
    split_ifs with hlen hupper
    · exact noPanic_fail _
    · exact noPanic_fail _
    split
    · exact noPanic_fail _
    next bytes hbytes =>
      obtain ⟨hall, hdouble, -⟩ := hexDecode_eq_ok hbytes
      have hbyteLen : bytes.length = 32 := by
        have hutf8 := utf8Len_of_all hall
        unfold versionHexDigits at hlen
        omega
      rw [dif_pos hbyteLen]
      exact noPanic_ok _

theorem checkChainIds_noPanic (env : String) (ids : List (String × UInt64)) :
    NoPanic (EnvPolicy.checkChainIds env ids) := by
  induction ids with
  | nil => exact noPanic_ok _
  | cons id rest ih => exact (noPanic_okOr _ _).bind fun _ => ih

theorem EnvPolicy.parse_noPanic (toml : TomlParser) (raw env : String) :
    NoPanic (EnvPolicy.parse toml raw env) :=
  (noPanic_mapErr _ _).bind fun _ => (noPanic_bailIf _ _).bind fun _ =>
    (checkChainIds_noPanic _ _).bind fun _ => (noPanic_bailIf _ _).bind fun _ => noPanic_ok _

theorem EnvPolicy.forEnv_noPanic (toml : TomlParser) (files : EnvFiles) (env : String) :
    NoPanic (EnvPolicy.forEnv toml files env) := by
  unfold EnvPolicy.forEnv
  split_ifs
  · exact parse_noPanic _ _ _
  · exact parse_noPanic _ _ _
  · exact parse_noPanic _ _ _
  · exact noPanic_fail _

theorem pendingChains_noPanic (acl : AclPolicy) (entries : List (String × ChainEntry))
    (chains : List (UInt64 × PendingChain)) : NoPanic (pendingChains acl entries chains) := by
  induction entries generalizing chains with
  | nil => exact noPanic_ok _
  | cons entry rest ih =>
    exact (noPanic_okOr _ _).bind fun _ => (noPanic_okOr _ _).bind fun _ => ih _

theorem parseCommitmentConfig_noPanic (crates : BootCrates) (vars : EnvVars)
    (policy : EnvPolicy) : NoPanic (parseCommitmentConfig crates vars policy) := by
  unfold parseCommitmentConfig
  split
  · exact noPanic_ok _
  refine (noPanic_okOr _ _).bind fun commitment => ?_
  refine (noPanic_mapErr _ _).bind fun registry => ?_
  refine ((parseVersion_noPanic _).mapFail _).bind fun version => ?_
  refine (noPanic_okOr _ _).bind fun timeoutMs => ?_
  refine (noPanic_bailIf _ _).bind fun _ => ?_
  refine (noPanic_okOr _ _).bind fun size => ?_
  refine (noPanic_okOr _ _).bind fun cacheSize => ?_
  refine (noPanic_okOr _ _).bind fun ttl => ?_
  refine (noPanic_bailIf _ _).bind fun _ => ?_
  exact (noPanic_mapErr _ _).bind fun _ => noPanic_ok _

section Spares

variable {α β : Type} {p : Panic}

/-- No run ends with the panic `p`. -/
def Spares (p : Panic) (x : BootTask α) : Prop := ∀ tr, ¬ Run x.run tr (.error (.panic p))

theorem spares_pure (a : α) : Spares p (pure a) := by
  intro tr h
  cases (run_exceptPure.1 h).2

theorem spares_exec {r : Exec BootError α} (hr : NoPanic r) : Spares p (BootTask.ofExec r) :=
  fun _ h => hr p (run_bootExec.1 h).2.symm

theorem spares_lift (q : Prog bootSig α) : Spares p (ExceptT.lift q) := by
  intro tr h
  obtain ⟨a, ha, -⟩ := run_lift.1 h
  cases ha

theorem spares_adapt {ε : Type} (f : ε → BootError) (x : ExceptT ε (Prog bootSig) α) :
    Spares p (ExceptT.adapt (fun e => .err (f e)) x) := by
  intro tr h
  obtain ⟨e, he, -⟩ := run_adapt_error.1 h
  cases he

/-- What comes after `x` only has to spare `p` for the values `x` can give. -/
theorem Spares.bind_of_run {x : BootTask α} {f : α → BootTask β} (hx : Spares p x)
    (hf : ∀ a tr, Run x.run tr (.ok a) → Spares p (f a)) : Spares p (x >>= f) := by
  intro tr h
  rcases run_exceptBind.1 h with ⟨e, he, hrun⟩ | ⟨tr₁, tr₂, a, rfl, h₁, h₂⟩
  · cases he
    exact hx tr hrun
  · exact hf a tr₁ h₁ tr₂ h₂

theorem Spares.bind {x : BootTask α} {f : α → BootTask β} (hx : Spares p x)
    (hf : ∀ a, Spares p (f a)) : Spares p (x >>= f) :=
  hx.bind_of_run fun a _ _ => hf a

end Spares

section Main

variable {crates : BootCrates} {vars : EnvVars} {policy : EnvPolicy} {p : Panic}

theorem parsePermitChains_spares (acl : AclPolicy) :
    Spares p (parsePermitChains crates vars acl) := by
  unfold parsePermitChains
  split
  · exact spares_pure _
  refine (spares_exec (noPanic_mapErr _ _)).bind fun parsed => ?_
  split_ifs
  · exact spares_pure _
  refine (spares_lift _).bind fun entries => ?_
  exact (spares_exec (pendingChains_noPanic _ _ _)).bind fun _ => spares_pure _

theorem concurrencyVar_spares : Spares p (concurrencyVar vars) := by
  unfold concurrencyVar
  split
  · exact spares_exec (noPanic_okOr _ _)
  · exact (spares_lift _).bind fun _ => spares_pure _

theorem validateThreshold_noPanic (m t n : ℕ) : NoPanic (validateThreshold m t n) :=
  (noPanic_bailIf _ _).bind fun _ => noPanic_bailIf _ _

theorem fromEnv_spares : Spares p (Boot.Config.fromEnv crates vars) := by
  refine (spares_exec (noPanic_okOr _ _)).bind fun getctTimeoutMs => ?_
  refine (spares_exec (noPanic_okOr _ _)).bind fun env => ?_
  refine (spares_exec (noPanic_mapErr _ _)).bind fun envCfg => ?_
  refine (spares_exec (EnvPolicy.forEnv_noPanic _ _ _)).bind fun policy => ?_
  refine (parsePermitChains_spares _).bind fun pending => ?_
  refine (spares_exec (noPanic_bailIf _ _)).bind fun _ => ?_
  refine (spares_exec (parseCommitmentConfig_noPanic _ _ _)).bind fun cv => ?_
  refine (spares_exec (noPanic_bailIf _ _)).bind fun _ => ?_
  refine concurrencyVar_spares.bind fun concurrency => ?_
  refine (spares_exec (noPanic_okOr _ _)).bind fun maxInflight => ?_
  refine (spares_exec (validateThreshold_noPanic _ _ _)).bind fun _ => ?_
  exact (spares_exec (noPanic_okOr _ _)).bind fun _ => spares_pure _

theorem resolveChains_spares (order : List (UInt64 × PendingChain))
    (chains : UInt64 → Option ChainConfig) : Spares p (resolveChains crates order chains) := by
  induction order generalizing chains with
  | nil => exact spares_pure _
  | cons q rest ih => exact (spares_adapt _ _).bind fun _ => ih _

theorem resolveAcp_spares (cfg : Boot.Config) : Spares p (cfg.resolveAcp crates) := by
  unfold Boot.Config.resolveAcp
  split
  · exact spares_pure _
  simp only
  split_ifs
  · refine Spares.bind ?_ fun _ => spares_pure _
    exact (spares_lift _).bind fun _ => resolveChains_spares _ _
  · exact spares_pure _

theorem installAcp_spares {cfg : Boot.Config} (h : cfg.requirePermit → cfg.acpVerifier.isSome)
    (inner : Inner) : Spares p (installAcp cfg inner) := by
  unfold installAcp
  split_ifs with hreq
  · obtain ⟨verifier, hverifier⟩ := Option.isSome_iff_exists.1 (h hreq)
    rw [hverifier]
    exact spares_pure _
  · exact spares_pure _

theorem installCommitment_spares {cfg : Boot.Config}
    (h : cfg.enableCommitmentVerification → cfg.commitmentVerifier.isSome) (inner : Inner) :
    Spares p (installCommitment cfg inner) := by
  unfold installCommitment
  split_ifs with hon
  · obtain ⟨cv, hcv⟩ := Option.isSome_iff_exists.1 (h hon)
    rw [hcv]
    exact (spares_adapt _ _).bind fun _ => spares_pure _
  · exact spares_pure _

theorem semaphore_spares (hp : p ≠ .expect "a semaphore may not have more than MAX_PERMITS permits")
    (permits : ℕ) : Spares p (BootTask.ofExec (semaphore permits)) := by
  intro tr h
  have hr := (run_bootExec.1 h).2
  unfold semaphore at hr
  split_ifs at hr
  cases hr
  exact hp rfl

/-- The semaphores apart, no part of the boot can panic. -/
theorem main_spares (hp : p ≠ .expect "a semaphore may not have more than MAX_PERMITS permits") :
    Spares p (main crates vars) := by
  refine fromEnv_spares.bind_of_run fun cfg tr hcfg => ?_
  obtain ⟨env, policy, -, hpolicy, hfollows⟩ := fromEnv_ok hcfg
  obtain ⟨raw, hraw⟩ := EnvPolicy.forEnv_parse hpolicy
  refine (resolveAcp_spares cfg).bind_of_run fun cfg' tr' hcfg' => ?_
  have hresolved := resolveAcp_ok (EnvPolicy.valid_parse hraw).noDefault hfollows hcfg'
  refine Spares.bind ?_ fun loaded => ?_
  · exact (spares_lift _).bind fun _ => spares_exec (noPanic_mapErr _ _)
  refine (spares_exec (noPanic_mapErr _ _)).bind fun _ => ?_
  refine (spares_lift _).bind fun parallelism => ?_
  -- what the two `expect`s ask for is there in a resolved configuration
  refine (installAcp_spares (fun h => ?_) _).bind fun inner => ?_
  · obtain ⟨verifier, hverifier, -⟩ := hresolved.named h
    rw [hverifier]
    rfl
  refine (installCommitment_spares hresolved.verifierSet _).bind fun q => ?_
  refine (semaphore_spares hp _).bind fun _ => ?_
  exact (semaphore_spares hp _).bind fun _ => spares_pure _

/-! ## The gates of a service that is ready -/

variable {tr tr' : Trace bootSig}

theorem ChainsVerifierConfig.Named.mono {acl : AclPolicy} {verifier : ChainsVerifierConfig}
    (h : verifier.Named acl tr) (htr : tr ⊆ tr') : verifier.Named acl tr' := by
  refine ⟨h.nonempty, fun chainId cfg hget => ?_⟩
  obtain ⟨hzero, id, hid, hmem⟩ := h.named chainId cfg hget
  exact ⟨hzero, id, hid, htr hmem⟩

theorem installAcp_ok {cfg : Boot.Config} {inner inner' : Inner}
    (h : Run (installAcp cfg inner).run tr (.ok inner')) :
    inner'.commitmentVerifier = inner.commitmentVerifier
      ∧ inner'.acpVerifier = if cfg.requirePermit then cfg.acpVerifier else inner.acpVerifier := by
  unfold installAcp at h
  split_ifs at h ⊢ with hreq
  · split at h
    next verifier hverifier =>
      cases (run_exceptPure.1 h).2
      exact ⟨rfl, hverifier.symm⟩
    · cases (run_throw.1 h).2
  · cases (run_exceptPure.1 h).2
    exact ⟨rfl, rfl⟩

theorem installCommitment_ok {cfg : Boot.Config} {inner inner' : Inner}
    {cache : Lru CommitKey CacheEntry}
    (h : Run (installCommitment cfg inner).run tr (.ok (inner', cache))) :
    inner'.acpVerifier = inner.acpVerifier
      ∧ inner'.commitmentVerifier = if cfg.enableCommitmentVerification
        then cfg.commitmentVerifier.map (·.1) else inner.commitmentVerifier := by
  unfold installCommitment at h
  split_ifs at h ⊢ with hon
  · split at h
    next cv cache' hcv =>
      obtain ⟨tr₁, tr₂, status, rfl, -, h⟩ := run_exceptBind_ok h
      cases (run_exceptPure.1 h).2
      rw [hcv]
      exact ⟨rfl, rfl⟩
    · cases (run_throw.1 h).2
  · cases (run_exceptPure.1 h).2
    exact ⟨rfl, rfl⟩

/-- The service is ready, with the gates the policy has on, as the policy has them, and without
those it has off. -/
structure Service.Gated (crates : BootCrates) (policy : EnvPolicy) (tr : Trace bootSig)
    (svc : Service) : Prop where
  ready : svc.ready = true
  acp : svc.st.acpVerifier.isSome = policy.requirePermit
  chains : ∀ verifier, svc.st.acpVerifier = some verifier → verifier.Named policy.acl tr
  commitment : svc.st.commitmentVerifier.isSome = policy.enableCommitmentVerification
  follows : ∀ cfg, svc.st.commitmentVerifier = some cfg →
    ∃ commitment, policy.commitment = some commitment ∧ cfg.Follows crates commitment

theorem Service.Gated.mono {svc : Service} (h : svc.Gated crates policy tr) (htr : tr ⊆ tr') :
    svc.Gated crates policy tr' :=
  ⟨h.ready, h.acp, fun verifier hget => (h.chains verifier hget).mono htr, h.commitment, h.follows⟩

/-- What the two gates are set up from is what the policy says. -/
theorem install_gated {cfg : Boot.Config} (hcfg : cfg.Resolved crates policy tr) {keys : KeyStore}
    {signer : Option Signer} {inner inner' : Inner} {cache : Lru CommitKey CacheEntry}
    {trA trC : Trace bootSig}
    (hacp : Run (installAcp cfg (Inner.new keys signer)).run trA (.ok inner))
    (hcommitment : Run (installCommitment cfg inner).run trC (.ok (inner', cache)))
    (evmAddress : String) (sh : Shared) :
    ((Booted.mk inner'.setReady evmAddress sh).service crates.service).Gated crates policy tr := by
  obtain ⟨hnone, hverifier⟩ := installAcp_ok hacp
  obtain ⟨hkept, hinstalled⟩ := installCommitment_ok hcommitment
  rw [← hkept] at hverifier
  rw [hnone] at hinstalled
  refine ⟨rfl, ?_, fun verifier hget => ?_, ?_, fun cv hget => ?_⟩
  · show inner'.acpVerifier.isSome = policy.requirePermit
    rw [hverifier, ← hcfg.requirePermit]
    by_cases hon : cfg.requirePermit
    · obtain ⟨verifier, hsome, -⟩ := hcfg.named hon
      simp [hon, hsome]
    · simp [hon, Inner.new]
  · replace hget : inner'.acpVerifier = some verifier := hget
    rw [hverifier] at hget
    split_ifs at hget with hon
    · obtain ⟨verifier', hsome, hnamed⟩ := hcfg.named hon
      rw [hsome] at hget
      cases hget
      exact hnamed
    · cases hget
  · show inner'.commitmentVerifier.isSome = policy.enableCommitmentVerification
    rw [hinstalled, ← hcfg.enabled]
    by_cases hon : cfg.enableCommitmentVerification
    · simp [hon, hcfg.verifierSet hon]
    · simp [hon, Inner.new]
  · replace hget : inner'.commitmentVerifier = some cv := hget
    rw [hinstalled] at hget
    split_ifs at hget with hon
    · obtain ⟨q, hq, rfl⟩ := Option.map_eq_some_iff.1 hget
      exact hcfg.follows q hq
    · cases hget

theorem main_ok {booted : Booted} (h : Run (main crates vars).run tr (.ok booted)) :
    ∃ env policy, vars "COFHE_ENV" = some env
      ∧ EnvPolicy.forEnv crates.toml crates.files env = .ok policy
      ∧ (booted.service crates.service).Gated crates policy tr := by
  unfold main at h
  obtain ⟨tr₁, tr', cfg, rfl, hcfg, h⟩ := run_exceptBind_ok h
  obtain ⟨tr₂, tr'', cfg', rfl, hcfg', h⟩ := run_exceptBind_ok h
  obtain ⟨tr₃, tr₄, loaded, rfl, -, h⟩ := run_exceptBind_ok h
  obtain ⟨_, -, h⟩ := run_bootExecBind h
  obtain ⟨tr₅, tr₆, parallelism, rfl, -, h⟩ := run_exceptBind_ok h
  obtain ⟨tr₇, tr₈, inner, rfl, hacp, h⟩ := run_exceptBind_ok h
  obtain ⟨tr₉, tr₁₀, ⟨inner', cache⟩, rfl, hcommitment, h⟩ := run_exceptBind_ok h
  obtain ⟨_, -, h⟩ := run_bootExecBind h
  obtain ⟨_, -, h⟩ := run_bootExecBind h
  cases (run_exceptPure.1 h).2
  obtain ⟨env, policy, henv, hpolicy, hfollows⟩ := fromEnv_ok hcfg
  obtain ⟨raw, hraw⟩ := EnvPolicy.forEnv_parse hpolicy
  have hresolved := resolveAcp_ok (EnvPolicy.valid_parse hraw).noDefault hfollows hcfg'
  have hgated := install_gated hresolved hacp hcommitment loaded.evmAddress
  refine ⟨env, policy, henv, hpolicy, (hgated _).mono fun e he => ?_⟩
  exact List.mem_append_right _ (List.mem_append_left _ he)

/-- Whatever the variables are set to and the RPCs answer, a boot ends with a service that has the
gates of its policy, or without a service; and then not at one of the two `expect`s on the
verifiers. -/
theorem boot_gated {r : Except (Abort BootError) Booted} (h : Run (main crates vars).run tr r) :
    (∃ booted env policy, r = .ok booted ∧ vars "COFHE_ENV" = some env
      ∧ EnvPolicy.forEnv crates.toml crates.files env = .ok policy
      ∧ (booted.service crates.service).Gated crates policy tr)
    ∨ ∃ stop, r = .error stop ∧ stop ≠ .panic (.expect expectAcpVerifier)
      ∧ stop ≠ .panic (.expect expectCommitmentVerifier) := by
  rcases r with stop | booted
  · refine .inr ⟨stop, rfl, ?_, ?_⟩
    · rintro rfl
      exact main_spares (by decide) tr h
    · rintro rfl
      exact main_spares (by decide) tr h
  · obtain ⟨env, policy, henv, hpolicy, hgated⟩ := main_ok h
    exact .inl ⟨booted, env, policy, rfl, henv, hpolicy, hgated⟩

end Main

/-- The mainnet policy, without its comments. -/
def sampleDocument : PolicyDocument :=
  ⟨true, true, some ⟨"0x0000000000000000000000000000000000000000000000000000000000000002",
    "0x4B82F827C03fad5739EFEcfcF743E65E732be695", false⟩, true, [("1", 1), ("42161", 1)]⟩

def samplePolicy : String :=
  "require_permit = true\nenable_commitment_verification = true\nmetrics_push = true\n\n" ++
  "[commitment]\n" ++
  "version = \"0x0000000000000000000000000000000000000000000000000000000000000002\"\n" ++
  "registry_address = \"0x4B82F827C03fad5739EFEcfcF743E65E732be695\"\n" ++
  "warning_instead_of_enforcement = false\n\n" ++
  "[acl]\ntask_manager_ids = \x7b 1 = 1, 42161 = 1 \x7d\n"

def sampleRegistry : Address := .ofNat 20 0x4B82F827C03fad5739EFEcfcF743E65E732be695

def sampleBoot : BootCrates where
  service := { sampleCrates with parseAddress := fun _ => .ok sampleRegistry }
  files := ⟨samplePolicy, samplePolicy, samplePolicy⟩
  toml := fun _ => .ok sampleDocument
  permitChains := fun _ => .ok [("1", ⟨"http://localhost:8545", none, none⟩)]
  parseUrl := fun _ => .ok ()
  showAddress := fun address => String.ofList ('0' :: 'x' :: hexEncode address.1)
  lookup := fun _ => .ok ⟨3, 6⟩
  minThreshold := 2
  buildClient := fun _ => .ok ()

def sampleVars : EnvVars := fun key =>
  [("COFHE_ENV", "mainnet"), ("CT_SOURCE_URL", "http://localhost:9450"),
    ("PERMIT_CHAINS_JSON", "\x7b\"1\": \x7b\"rpc_url\": \"http://localhost:8545\"\x7d\x7d"),
    ("COMMITMENT_REGISTRY_RPC_URL", "http://localhost:8545"),
    ("DECRYPT_CONCURRENCY", "4")].lookup key

def sampleLoaded : LoadedKeys :=
  ⟨⟨⟨[]⟩, sampleKey⟩, ⟨fun _ => .ok (⟨1, 1⟩, ⟨false, false⟩)⟩, "0x01"⟩

/-- The address book and the registry answer, and the keys are reconstructed. -/
def sampleBooting : Trace bootSig :=
  [⟨.getTm "http://localhost:8545" cofheAddressBook 1 5000, .ok (.ofNat 20 1)⟩,
    ⟨.loadKeys "mainnet" 3, .ok sampleLoaded⟩, ⟨.availableParallelism, some 4⟩,
    ⟨.getVersionStatus sampleRegistry (.ofNat 32 2) 5000, .ok 1⟩]

theorem boot_gated_sample : ∃ booted,
    Run (main sampleBoot sampleVars).run sampleBooting (.ok booted)
      ∧ (booted.service sampleBoot.service).Gated sampleBoot (.ofDocument sampleDocument)
        sampleBooting := by
  have hrun : ∃ booted, Run (main sampleBoot sampleVars).run sampleBooting (.ok booted) :=
    ⟨_, .op (.op (.op (.op (.refl _))))⟩
  obtain ⟨booted, hrun⟩ := hrun
  rcases boot_gated hrun with ⟨booted', env, policy, hr, henv, hpolicy, hgated⟩ | ⟨stop, hr, -⟩
  · cases hr
    cases henv
    cases hpolicy
    exact ⟨booted, hrun, hgated⟩
  · cases hr

end Teecryptor
