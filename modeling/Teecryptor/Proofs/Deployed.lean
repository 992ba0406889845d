import Teecryptor.Proofs.Authentic
import Teecryptor.Proofs.Boot

/-!
# From the launch to a result

A deployment is booted by `main` and then serves. The caches it starts with are empty, so every
commitment it judges by was read from the registry since, and the gates are those of the baked
policy. Every result it ever shows has passed them (`deployed_answers`).
-/

namespace Teecryptor

open Interact Interact.Prog Rust

/-! ## What the boot leaves in the caches -/

section Fresh

variable {crates : BootCrates} {vars : EnvVars} {tr : Trace bootSig}

theorem parseCommitmentConfig_fresh {policy : EnvPolicy} {cfg : CommitmentConfig}
    {cache : Lru CommitKey CacheEntry}
    (h : parseCommitmentConfig crates vars policy = .ok (some (cfg, cache))) :
    cache.entries = [] := by
  unfold parseCommitmentConfig at h
  split at h
  · cases h
  obtain ⟨commitment, -, h⟩ := bind_eq_ok.1 h
  obtain ⟨registry, -, h⟩ := bind_eq_ok.1 h
  obtain ⟨version, -, h⟩ := bind_eq_ok.1 h
  obtain ⟨timeoutMs, -, h⟩ := bind_eq_ok.1 h
  obtain ⟨-, -, h⟩ := bind_eq_ok.1 h
  obtain ⟨size, -, h⟩ := bind_eq_ok.1 h
  obtain ⟨cacheSize, -, h⟩ := bind_eq_ok.1 h
  obtain ⟨ttl, -, h⟩ := bind_eq_ok.1 h
  obtain ⟨-, -, h⟩ := bind_eq_ok.1 h
  obtain ⟨⟨cfg', cache'⟩, hnew, h⟩ := bind_eq_ok.1 h
  have hnew := mapErr_eq_ok.1 hnew
  unfold CommitmentConfig.new at hnew
  split at hnew
  · cases hnew
  · cases hnew
    cases h
    rfl

/-- No commitment is cached for a configuration that has not served yet. -/
def Boot.Config.Fresh (cfg : Boot.Config) : Prop :=
  ∀ cv cache, cfg.commitmentVerifier = some (cv, cache) → cache.entries = []

theorem fromEnv_fresh {cfg : Boot.Config}
    (h : Run (Boot.Config.fromEnv crates vars).run tr (.ok cfg)) : cfg.Fresh := by
  unfold Boot.Config.fromEnv at h
  obtain ⟨getctTimeoutMs, -, h⟩ := run_bootExecBind h
  obtain ⟨env, -, h⟩ := run_bootExecBind h
  obtain ⟨envCfg, -, h⟩ := run_bootExecBind h
  obtain ⟨policy, -, h⟩ := run_bootExecBind h
  obtain ⟨tr₁, tr₂, pending, rfl, -, h⟩ := run_exceptBind_ok h
  obtain ⟨_, -, h⟩ := run_bootExecBind h
  obtain ⟨cv, hcv, h⟩ := run_bootExecBind h
  obtain ⟨_, -, h⟩ := run_bootExecBind h
  obtain ⟨tr₃, tr₄, concurrency, rfl, -, h⟩ := run_exceptBind_ok h
  obtain ⟨maxInflight, -, h⟩ := run_bootExecBind h
  obtain ⟨_, -, h⟩ := run_bootExecBind h
  obtain ⟨ctSourceUrl, -, h⟩ := run_bootExecBind h
  cases (run_exceptPure.1 h).2
  rintro cv' cache hsome
  simp only at hsome
  subst hsome
  exact parseCommitmentConfig_fresh hcv

theorem resolveAcp_fresh {cfg cfg' : Boot.Config} (hcfg : cfg.Fresh)
    (h : Run (cfg.resolveAcp crates).run tr (.ok cfg')) : cfg'.Fresh := by
  unfold Boot.Config.resolveAcp at h
  split at h
  · cases (run_exceptPure.1 h).2
    exact hcfg
  · simp only at h
    split_ifs at h
    · obtain ⟨tr₁, tr₂, verifier, rfl, -, h⟩ := run_exceptBind_ok h
      cases (run_exceptPure.1 h).2
      exact hcfg
    · cases (run_exceptPure.1 h).2
      exact hcfg

theorem installCommitment_fresh {cfg : Boot.Config} (hcfg : cfg.Fresh) {inner inner' : Inner}
    {cache : Lru CommitKey CacheEntry}
    (h : Run (installCommitment cfg inner).run tr (.ok (inner', cache))) : cache.entries = [] := by
  unfold installCommitment at h
  split_ifs at h
  · split at h
    next cv cache' hcv =>
      obtain ⟨tr₁, tr₂, status, rfl, -, h⟩ := run_exceptBind_ok h
      cases (run_exceptPure.1 h).2
      exact hcfg cv cache hcv
    · cases (run_throw.1 h).2
  · cases (run_exceptPure.1 h).2
    rfl

/-- A booted service has nothing cached. -/
theorem main_fresh {booted : Booted} (h : Run (main crates vars).run tr (.ok booted)) :
    booted.shared.cache.entries = [] ∧ booted.shared.NoResults := by
  unfold main at h
  obtain ⟨tr₁, tr', cfg, rfl, hcfg, h⟩ := run_exceptBind_ok h
  obtain ⟨tr₂, tr'', cfg', rfl, hcfg', h⟩ := run_exceptBind_ok h
  obtain ⟨tr₃, tr₄, loaded, rfl, -, h⟩ := run_exceptBind_ok h
  obtain ⟨_, -, h⟩ := run_bootExecBind h
  obtain ⟨tr₅, tr₆, parallelism, rfl, -, h⟩ := run_exceptBind_ok h
  obtain ⟨tr₇, tr₈, inner, rfl, -, h⟩ := run_exceptBind_ok h
  obtain ⟨tr₉, tr₁₀, ⟨inner', cache⟩, rfl, hcommitment, h⟩ := run_exceptBind_ok h
  obtain ⟨_, -, h⟩ := run_bootExecBind h
  obtain ⟨_, -, h⟩ := run_bootExecBind h
  cases (run_exceptPure.1 h).2
  exact ⟨installCommitment_fresh (resolveAcp_fresh (fromEnv_fresh hcfg) hcfg') hcommitment, rfl, rfl⟩

end Fresh

/-! ## What a result went through -/

section Deployed

variable {crates : BootCrates} {vars : EnvVars} {trB : Trace bootSig} {booted : Booted} {ttl : ℕ}
  {c : Config (shared ttl) Request Response}

/-- In `tr` the request `q` was allowed by the TaskManager that the address book of the policy
answered during the boot, for the id the policy has for the request's chain. -/
def Permitted (crates : BootCrates) (policy : EnvPolicy) (trB : Trace bootSig) (q : Ask)
    (handle : Handle) (tr : Trace sig) : Prop :=
  ∃ (chain : ChainConfig) (id : UInt64),
    policy.acl.taskManagerIds.lookup (toString q.hostChainId.toNat) = some id
    ∧ (⟨.getTm chain.rpcUrl policy.acl.addressBook id chain.timeout, .ok chain.taskManager⟩
      : Event bootSig) ∈ trB
    ∧ chain.taskManager ≠ .zero 20
    ∧ match q.acp with
      | some acp => ∃ permission, ACP.tryFrom crates.service.parseAddress acp = .ok permission
          ∧ ⟨.isAllowedWithPermission chain permission handle.u256, .ok true⟩ ∈ tr
      | none => ⟨.isPubliclyAllowed chain handle.u256, .ok true⟩ ∈ tr

/-- Since the boot, the registry of the policy answered, under the policy's version and for the
handle, with the hash of the bytes. -/
def Committed (crates : BootCrates) (commitment : CommitmentPolicy)
    (c : Config (shared ttl) Request Response) (handle : Handle) (data : List UInt8) : Prop :=
  ∃ cfg : CommitmentConfig, cfg.Follows crates commitment ∧ ∃ e ∈ c.hist,
    e.event = ⟨.getCommitment cfg.version (toBeBytes handle.u256),
      .ok (crates.service.keccak256 data)⟩

/-- The answer `a` to `q` is of bytes that ct-server served for the handle, went through the gates
that the policy has on, and tells what the keys decrypt of the bytes. -/
def Passed (crates : BootCrates) (policy : EnvPolicy) (trB : Trace bootSig) (booted : Booted)
    (c : Config (shared ttl) Request Response) (q : Ask) (a : Answer) : Prop :=
  ∃ handle pid ct v ty, Handle.parse q.ctTempkey = some handle
    ∧ ServedBy (booted.service crates.service).st handle (c.eventsOf pid) ct
    ∧ (policy.requirePermit → Permitted crates policy trB q handle (c.eventsOf pid))
    ∧ (policy.enableCommitmentVerification → ∃ commitment, policy.commitment = some commitment
      ∧ (commitment.warningInsteadOfEnforcement = false → Committed crates commitment c handle ct.data))
    ∧ decryptCompressed crates.service.tfhe booted.inner.keys.zone0Direct ty ct.data = .ok v
    ∧ ((handleType (toBeBytes handle.u256)).toNat : ℤ) = EncryptionType.toI32 ty
    ∧ Tells (booted.service crates.service).st v ty a

theorem passed_of_decrypted {policy : EnvPolicy}
    (hgated : (booted.service crates.service).Gated crates policy trB)
    (h₀ : booted.shared.cache.entries = [])
    (hc : Reachable (serve (booted.service crates.service).st) booted.shared c) {q : Ask} {pid : ℕ}
    {a : Answer} (hd : DecryptedBy (booted.service crates.service).st q (c.eventsOf pid) a) :
    Passed crates policy trB booted c q a := by
  obtain ⟨handle, trF, pt, ty, hparse, hF, hsub, htells⟩ := hd
  obtain ⟨ct, hS⟩ := fetchDecrypt_served hF
  obtain ⟨reply, hreply, hread⟩ := hS.row
  obtain ⟨-, -, htype, -⟩ := hS.metadata
  refine ⟨handle, pid, ct, pt, ty, hparse, ⟨reply, hsub _ hreply, hread⟩, fun hon => ?_,
    fun hon => ?_, hS.value, htype, htells⟩
  · have hacp := hgated.acp
    rw [hon] at hacp
    obtain ⟨verifier, hverifier⟩ := Option.isSome_iff_exists.1 hacp
    obtain ⟨chain, hget, hallowed⟩ := hS.acl verifier hverifier
    obtain ⟨hzero, id, hid, hmem⟩ := (hgated.chains verifier hverifier).named q.hostChainId chain hget
    refine ⟨chain, id, hid, hmem, hzero, ?_⟩
    rcases hq : q.acp with _ | acp
    · rw [hq] at hallowed
      exact hsub _ hallowed
    · rw [hq] at hallowed
      obtain ⟨permission, hp, hallowed⟩ := hallowed
      exact ⟨permission, hp, hsub _ hallowed⟩
  · have hset := hgated.commitment
    rw [hon] at hset
    obtain ⟨cfg, hcfg⟩ := Option.isSome_iff_exists.1 hset
    obtain ⟨commitment, hcommitment, hfollows⟩ := hgated.follows cfg hcfg
    refine ⟨commitment, hcommitment, fun hwarn => ⟨cfg, hfollows, ?_⟩⟩
    have henforce : cfg.warnOnly = false := hfollows.warnOnly.trans hwarn
    obtain ⟨hash, hhash, -, hobtained⟩ := hS.commitment cfg hcfg henforce
    obtain ⟨e, he, hev⟩ := read_of_obtained hcfg h₀ hc (hobtained.mono hsub)
    exact ⟨e, he, by rw [hev, ← hhash]; rfl⟩

/-- Whatever the variables are set to and everything outside answers, at the boot and since: a
service that booted has the policy baked for its environment, and every result it shows, directly
or to a poll, is of a request that passed the gates the policy has on. -/
theorem deployed_answers (hboot : Run (main crates vars).run trB (.ok booted))
    (hc : Reachable (serve (booted.service crates.service).st) booted.shared c) :
    ∃ env policy, vars "COFHE_ENV" = some env
      ∧ EnvPolicy.forEnv crates.toml crates.files env = .ok policy
      ∧ ∀ pid t resp a, c.threads pid = some t → t.rest = .pure resp →
        resp.shown t.job = some a → ∃ q, Source c t q a ∧ Passed crates policy trB booted c q a := by
  obtain ⟨env, policy, henv, hpolicy, hgated⟩ := main_ok hboot
  obtain ⟨h₀, hresults⟩ := main_fresh hboot
  refine ⟨env, policy, henv, hpolicy, fun pid t resp a ht hr hs => ?_⟩
  obtain ⟨q, hq⟩ := exists_source hresults hc ht hr hs
  obtain ⟨pid', hd⟩ := decrypted_of_source hc ht hr hs hq
  exact ⟨q, hq, passed_of_decrypted hgated h₀ hc hd⟩

end Deployed

/-! ## A deployment that answers -/

section Sample

/-- The chain of the sample boot, through the TaskManager that its address book answered. -/
def bootedChain : ChainConfig := ⟨"http://localhost:8545", .ofNat 20 1, 5000⟩

def bootedCommitment : CommitmentConfig := ⟨sampleRegistry, .ofNat 32 2, 5000, false, 3600000⟩

def bootedShared : Shared :=
  (Shared.new 0 4 (.empty 100000 (by decide))).withConcurrency 4 1000

theorem sample_booted : ∃ booted, Run (main sampleBoot sampleVars).run sampleBooting (.ok booted)
    ∧ booted.inner.keys = sampleLoaded.keys ∧ booted.inner.signer = some sampleLoaded.signer
    ∧ booted.inner.acpVerifier.bind (·.get 1) = some bootedChain
    ∧ booted.inner.commitmentVerifier = some bootedCommitment
    ∧ booted.shared = bootedShared :=
  ⟨_, .op (.op (.op (.op (.refl _)))), rfl, rfl, rfl, rfl, rfl⟩

def bootedGates : Trace sig :=
  [⟨.isPubliclyAllowed bootedChain sampleHandle.u256, .ok true⟩,
    ⟨.getFromCache (1, sampleHandle.u256), none⟩,
    ⟨.getCommitment (.ofNat 32 2) (toBeBytes sampleHandle.u256), .ok sampleHash.1⟩,
    ⟨.putInCache (1, sampleHandle.u256) sampleHash, ()⟩]

def bootedFetch : Trace sig :=
  ⟨.tryAdmit, true⟩ :: (bootedGates ++ [⟨.getStoredCt sampleHandle.asStr, sampleReply⟩,
    ⟨.acquireDecrypt, ()⟩, ⟨.spawnBlocking, (0 : ℕ)⟩, ⟨.joinBlocking 0, ()⟩])
    ++ [⟨.dropAdmit, ()⟩]

variable {verifier : ChainsVerifierConfig}

/-- The state of the sample deployment. -/
def bootedState (verifier : ChainsVerifierConfig) : AppState :=
  ⟨sampleBoot.service, sampleLoaded.keys, some verifier, some bootedCommitment,
    some sampleLoaded.signer⟩

theorem booted_gates (hget : verifier.get 1 = some bootedChain) :
    Run (gates (bootedState verifier) sampleHandle 1 none .v1).run bootedGates
      (.ok (some ⟨sampleHash, false⟩)) := by
  refine run_gates.2 ⟨[⟨.isPubliclyAllowed bootedChain sampleHandle.u256, .ok true⟩], _, none, _,
    .append _ _, ?_, ?_, rfl⟩
  · refine run_enforceAcp.2 (.inl ⟨rfl, ?_⟩)
    unfold verifyAcp verifyPubliclyAllowed
    simp only [hget]
    exact run_attemptBind.2 ⟨.ok true, [], rfl, run_checkAllowed_ok.2 ⟨rfl, rfl⟩⟩
  · refine run_enforceCommitment.2 (.inl ⟨_, rfl, ?_⟩)
    refine (run_fetchCommitment _ _ _).2 (.inr ⟨.ok sampleHash, _, rfl, rfl, ?_⟩)
    exact (run_refreshCommitment _ _ _).2 (.inl ⟨sampleHash, rfl, rfl⟩)

theorem booted_fetch (hget : verifier.get 1 = some bootedChain) :
    Run (fetchDecrypt (bootedState verifier) sampleHandle 1 none .v1).run bootedFetch
      (.ok (1, .bool)) := by
  refine run_fetchDecrypt.2 (.inr ⟨_, rfl, run_exceptBind.2
    (.inr ⟨bootedGates, _, _, rfl, booted_gates hget, ?_⟩)⟩)
  refine run_openRow.2 ⟨sampleReply, _, rfl, .inr
    ⟨sampleRow, servedRow_eq_ok.2 ⟨sample_row, rfl, rfl, rfl⟩, ?_⟩⟩
  refine run_exceptBind.2 (.inr ⟨[], _, (), rfl, ?_,
    run_decryptServed_ok.2 ⟨sample_metadata, ?_, 0, rfl⟩⟩)
  · simp only [integrityGate, bootedState]
    rw [integrity_judged (by simp [sampleBoot, sampleCrates, sampleHash])]
    exact run_judgeCommitment.2 (.inl ⟨rfl, rfl, rfl⟩)
  · rw [decryptClosure_eq rfl rfl]
    exact sample_value

theorem booted_serve (hget : verifier.get 1 = some bootedChain) :
    Run (serve (bootedState verifier) (sampleRequest 1)) (⟨.newUuid, "id"⟩ :: bootedFetch)
      sampleResponse := by
  refine (run_serve (q := sampleAsk 1) rfl).2 (.inr ⟨[⟨.newUuid, "id"⟩], bootedFetch, _, rfl,
    sample_enter 1, .inr ⟨bootedFetch, [], (1, .bool), by simp, booted_fetch hget, .inl ?_⟩⟩)
  refine run_exceptBind.2 (.inr ⟨[], [], sampleSignature, rfl, ?_, run_exceptPure.2 ⟨rfl, rfl⟩⟩)
  exact run_resolveSignature (congrArg some sample_sign)

theorem booted_performs (ttl : ℕ) : ∃ s, (shared ttl).Performs bootedShared
    (⟨.newUuid, "id"⟩ :: bootedFetch) s := by
  refine ⟨_, .step rfl (.step ⟨rfl, rfl⟩ (.step rfl (.step rfl (.step rfl (.step rfl
    (.step rfl (.step ⟨by decide, rfl⟩ (.step ⟨rfl, rfl⟩ (.cons (.single (.finish 0 ?_))
    ⟨?_, rfl⟩ (.step rfl (.nil .refl)))))))))))⟩
  · decide
  · decide

/-- The sample deployment boots under the policy baked for its environment, which has both gates on,
and its answer to a public decrypt has passed them. -/
theorem deployed_answers_sample : ∃ (booted : Booted) (c : Config (shared 3600000) Request Response)
    (q : Ask) (a : Answer),
    Run (main sampleBoot sampleVars).run sampleBooting (.ok booted)
      ∧ Reachable (serve (booted.service sampleBoot.service).st) booted.shared c
      ∧ Passed sampleBoot (.ofDocument sampleDocument) sampleBooting booted c q a
      ∧ booted.inner.acpVerifier.isSome ∧ booted.inner.commitmentVerifier = some bootedCommitment
      ∧ bootedCommitment.warnOnly = false := by
  obtain ⟨⟨⟨keys, ready, acp, cv, signer⟩, evmAddress, s₀⟩, hboot, hkeys, hsigner, hacp, hcv, hs₀⟩ :=
    sample_booted
  simp only at hkeys hsigner hacp hcv hs₀
  subst hkeys hsigner hcv hs₀
  obtain ⟨verifier, rfl, hget⟩ := Option.bind_eq_some_iff.1 hacp
  obtain ⟨s, hs⟩ := booted_performs 3600000
  obtain ⟨c, hc, -, -, ht⟩ := reachable_run (booted_serve hget) hs
  obtain ⟨env, policy, henv, hpolicy, hanswers⟩ := deployed_answers hboot hc
  obtain rfl : "mainnet" = env := Option.some.inj ((rfl : some "mainnet" = _).trans henv)
  obtain rfl : .ofDocument sampleDocument = policy :=
    Except.ok.inj ((rfl : Except.ok (EnvPolicy.ofDocument sampleDocument) = _).trans hpolicy)
  obtain ⟨q, -, hpassed⟩ := hanswers 0 _ _ _ ht rfl rfl
  exact ⟨_, c, q, _, hboot, hc, hpassed, rfl, rfl, rfl⟩

end Sample

end Teecryptor
