import Teecryptor.Handlers

/-!
# How each call of a handler can go

For each function a handler calls, the traces of its runs with what they return. Everything about
runs of the handlers goes through these, not through the definitions.
-/

namespace Teecryptor

open Interact Interact.Prog Rust

section Basic

variable {ε α β : Type} {tr : Trace sig}

theorem throw_bind (e : ε) (f : α → Attempt ε β) : (throw e >>= f : Attempt ε β) = throw e := rfl

theorem run_perform {o : Op} {x : o.Ans} : Run (perform o) tr x ↔ tr = [⟨o, x⟩] :=
  run_call

theorem run_attempt {o : Op} {r : Except ε o.Ans} :
    Run (attempt o : Attempt ε o.Ans).run tr r ↔ ∃ x, r = .ok x ∧ tr = [⟨o, x⟩] := by
  rw [attempt, run_lift]
  simp only [run_perform]

theorem run_attemptBind {o : Op} {f : o.Ans → Attempt ε β} {r : Except ε β} :
    Run (attempt o >>= f).run tr r ↔ ∃ x tr', tr = ⟨o, x⟩ :: tr' ∧ Run (f x).run tr' r := by
  rw [run_exceptBind]
  constructor
  · rintro (⟨e, rfl, h⟩ | ⟨tr₁, tr₂, a, rfl, h₁, h₂⟩)
    · obtain ⟨x, hx, -⟩ := run_attempt.1 h
      simp at hx
    · obtain ⟨x, hx, rfl⟩ := run_attempt.1 h₁
      simp only [Except.ok.injEq] at hx
      subst hx
      exact ⟨a, tr₂, rfl, h₂⟩
  · rintro ⟨x, tr', rfl, h⟩
    exact .inr ⟨_, tr', x, rfl, run_attempt.2 ⟨x, rfl, rfl⟩, h⟩

theorem steps_attemptBind {o : Op} {f : o.Ans → Attempt ε β} {p : Task (Except ε β)}
    (h : Steps (attempt o >>= f).run tr p) :
    tr = [] ∨ ∃ x tr', tr = ⟨o, x⟩ :: tr' ∧ Steps (f x).run tr' p := by
  cases h with
  | refl => exact .inl rfl
  | op h => exact .inr ⟨_, _, rfl, h⟩

theorem run_performBind {o : Op} {f : o.Ans → Task β} {r : β} :
    Run (perform o >>= f) tr r ↔ ∃ x tr', tr = ⟨o, x⟩ :: tr' ∧ Run (f x) tr' r :=
  run_op

theorem run_ofExcept {e r : Except ε α} :
    Run (Attempt.ofExcept e).run tr r ↔ tr = [] ∧ r = e := by
  simp [Attempt.ofExcept, run_pure]

/-- A call without effects returns or fails as it does; a panic has no run. -/
theorem run_ofExec {e : Exec ε α} {r : Except ε α} :
    Run (Attempt.ofExec e).run tr r
      ↔ tr = [] ∧ ((∃ a, e = .ok a ∧ r = .ok a) ∨ ∃ x, e = .error (.err x) ∧ r = .error x) := by
  rcases e with (x | p) | a
  · simp [Attempt.ofExec, run_pure]
  · rw [Attempt.ofExec, run_attemptBind]
    constructor
    · rintro ⟨x, -⟩
      exact x.elim
    · simp
  · simp [Attempt.ofExec, run_pure]

theorem run_refuse {warnOnly : Bool} {reason : String} {allowed : α} {resp : Response}
    {r : Except Response α} :
    Run (refuse warnOnly reason allowed resp).run tr r ↔
      (warnOnly = true ∧ r = .ok allowed
        ∧ tr = [⟨.log (commitmentLog reason (some "warn_only")), ()⟩])
      ∨ (warnOnly = false ∧ r = .error resp ∧ tr = [⟨.log (commitmentLog reason none), ()⟩]) := by
  cases warnOnly
  · simp only [refuse, Bool.false_eq_true, if_false, false_and, false_or, true_and]
    rw [run_attemptBind]
    simp only [run_throw]
    constructor
    · rintro ⟨x, tr', rfl, rfl, rfl⟩
      exact ⟨rfl, rfl⟩
    · rintro ⟨rfl, rfl⟩
      exact ⟨(), [], rfl, rfl, rfl⟩
  · simp only [refuse, if_true, true_and, Bool.true_eq_false, false_and, or_false]
    rw [run_attemptBind]
    simp only [run_exceptPure]
    constructor
    · rintro ⟨x, tr', rfl, rfl, rfl⟩
      exact ⟨rfl, rfl⟩
    · rintro ⟨rfl, rfl⟩
      exact ⟨(), [], rfl, rfl, rfl⟩

end Basic

section Commitment

variable (cfg : CommitmentConfig) (handle : U256) (hostChainId : UInt64) {tr : Trace sig}

/-- The registry's answer to this lookup. -/
abbrev answered (x : RpcResult (FixedBytes 32)) : Event sig :=
  ⟨.getCommitment cfg.version (toBeBytes handle), x⟩

/-- A read of the registry ends in one of four ways. -/
theorem run_refreshCommitment {r : Except CommitmentError CommitHash} :
    Run (refreshCommitment cfg handle hostChainId).run tr r ↔
      (∃ c : CommitHash, r = .ok c
        ∧ tr = [answered cfg handle (.ok c.1), ⟨.putInCache (hostChainId, handle) c, ()⟩])
      ∨ (r = .error .notFound
        ∧ tr = [answered cfg handle (.ok (.zero 32)), ⟨.evictFromCache (hostChainId, handle), ()⟩])
      ∨ (r = .error (.timeout cfg.timeout) ∧ tr = [answered cfg handle .timeout])
      ∨ ∃ e, r = .error (.transport e.text) ∧ tr = [answered cfg handle (.error e)] := by
  rw [refreshCommitment, run_attemptBind]
  constructor
  · rintro ⟨commit | e | _, tr', rfl, h⟩
    · by_cases hc : commit ≠ .zero 32
      · simp only [dif_pos hc] at h
        obtain ⟨x, tr'', rfl, h'⟩ := run_attemptBind.1 h
        obtain ⟨rfl, rfl⟩ := run_exceptPure.1 h'
        exact .inl ⟨⟨commit, hc⟩, rfl, rfl⟩
      · simp only [dif_neg hc] at h
        obtain ⟨x, tr'', rfl, h'⟩ := run_attemptBind.1 h
        obtain ⟨rfl, rfl⟩ := run_throw.1 h'
        simp only [ne_eq, not_not] at hc
        subst hc
        exact .inr (.inl ⟨rfl, rfl⟩)
    · obtain ⟨rfl, rfl⟩ := run_throw.1 h
      exact .inr (.inr (.inr ⟨e, rfl, rfl⟩))
    · obtain ⟨rfl, rfl⟩ := run_throw.1 h
      exact .inr (.inr (.inl ⟨rfl, rfl⟩))
  · rintro (⟨c, rfl, rfl⟩ | ⟨rfl, rfl⟩ | ⟨rfl, rfl⟩ | ⟨e, rfl, rfl⟩)
    · refine ⟨.ok c.1, _, rfl, ?_⟩
      simp only [dif_pos c.2]
      exact run_attemptBind.2 ⟨(), [], rfl, run_exceptPure.2 ⟨rfl, rfl⟩⟩
    · refine ⟨.ok (.zero 32), _, rfl, ?_⟩
      simp only [ne_eq, not_true_eq_false, dite_false]
      exact run_attemptBind.2 ⟨(), [], rfl, run_throw.2 ⟨rfl, rfl⟩⟩
    · exact ⟨.timeout, [], rfl, run_throw.2 ⟨rfl, rfl⟩⟩
    · exact ⟨.error e, [], rfl, run_throw.2 ⟨rfl, rfl⟩⟩

/-- A lookup is a cache hit, or a miss and a read of the registry. -/
theorem run_fetchCommitment {r : Except CommitmentError FetchedCommitment} :
    Run (fetchCommitment cfg handle hostChainId).run tr r ↔
      (∃ c, r = .ok ⟨c, true⟩ ∧ tr = [⟨.getFromCache (hostChainId, handle), some c⟩])
      ∨ ∃ r' tr', r = r'.map (⟨·, false⟩)
        ∧ tr = ⟨.getFromCache (hostChainId, handle), none⟩ :: tr'
        ∧ Run (refreshCommitment cfg handle hostChainId).run tr' r' := by
  rw [fetchCommitment, run_attemptBind]
  constructor
  · rintro ⟨_ | c, tr', rfl, h⟩
    · rcases run_exceptBind.1 h with ⟨e, rfl, h'⟩ | ⟨tr₁, tr₂, c, rfl, h₁, h₂⟩
      · exact .inr ⟨.error e, tr', rfl, rfl, h'⟩
      · obtain ⟨rfl, rfl⟩ := run_exceptPure.1 h₂
        exact .inr ⟨.ok c, _, rfl, rfl, by simpa using h₁⟩
    · obtain ⟨rfl, rfl⟩ := run_exceptPure.1 h
      exact .inl ⟨c, rfl, rfl⟩
  · rintro (⟨c, rfl, rfl⟩ | ⟨e | c, tr', rfl, rfl, h⟩)
    · exact ⟨some c, [], rfl, run_exceptPure.2 ⟨rfl, rfl⟩⟩
    · exact ⟨none, tr', rfl, run_exceptBind.2 (.inl ⟨e, rfl, h⟩)⟩
    · refine ⟨none, tr', rfl, run_exceptBind.2 (.inr ⟨tr', [], c, by simp, h, ?_⟩)⟩
      exact run_exceptPure.2 ⟨rfl, rfl⟩

end Commitment

section Commitment

variable {cfg : CommitmentConfig} {handle : U256} {hostChainId : UInt64} {api : ApiVersion}
  {tr : Trace sig}

theorem run_enforceCommitment {r : Except Response (Option FetchedCommitment)} :
    Run (enforceCommitment handle hostChainId api cfg).run tr r ↔
      (∃ f, r = .ok (some f) ∧ Run (fetchCommitment cfg handle hostChainId).run tr (.ok f))
      ∨ ∃ e tr₁ tr₂, tr = tr₁ ++ tr₂
        ∧ Run (fetchCommitment cfg handle hostChainId).run tr₁ (.error e)
        ∧ Run (refuse cfg.warnOnly (commitmentReason e) none (commitmentResponse api e)).run
            tr₂ r := by
  rw [enforceCommitment, run_liftBind]
  constructor
  · rintro ⟨tr₁, tr₂, e | f, rfl, h₁, h₂⟩
    · exact .inr ⟨e, tr₁, tr₂, rfl, h₁, h₂⟩
    · obtain ⟨rfl, rfl⟩ := run_exceptPure.1 h₂
      exact .inl ⟨f, rfl, by simpa using h₁⟩
  · rintro (⟨f, rfl, h⟩ | ⟨e, tr₁, tr₂, rfl, h₁, h₂⟩)
    · exact ⟨tr, [], .ok f, by simp, h, run_exceptPure.2 ⟨rfl, rfl⟩⟩
    · exact ⟨tr₁, tr₂, .error e, rfl, h₁, h₂⟩

theorem run_judgeCommitment {warnOnly : Bool} {actual : FixedBytes 32} {expected : CommitHash}
    {r : Except Response Unit} :
    Run (judgeCommitment api warnOnly actual expected).run tr r ↔
      (actual = expected.1 ∧ tr = [] ∧ r = .ok ())
      ∨ (actual ≠ expected.1
        ∧ Run (refuse warnOnly "mismatch" () (api.err 502 "commitment_mismatch")).run tr r) := by
  unfold judgeCommitment
  split_ifs with h
  · rw [run_exceptPure]
    simp [h]
  · simp [h]

/-- A commitment that matches, or was not cached, is judged as it is. -/
theorem integrity_judged {crates : Crates} {fetched : FetchedCommitment} {ctData : List UInt8}
    (h : ¬ (crates.keccak256 ctData ≠ fetched.hash.1 ∧ fetched.fromCache = true)) :
    enforceCommitmentIntegrity handle hostChainId api crates (some cfg) fetched ctData
      = judgeCommitment api cfg.warnOnly (crates.keccak256 ctData) fetched.hash := by
  simp only [enforceCommitmentIntegrity, Option.any_some]
  rw [if_neg h]

/-- A cached commitment that does not match is read again, and the fresh one is judged. -/
theorem run_integrity_reread {crates : Crates} {fetched : FetchedCommitment}
    {ctData : List UInt8} {r : Except Response Unit}
    (hm : crates.keccak256 ctData ≠ fetched.hash.1 ∧ fetched.fromCache = true) :
    Run (enforceCommitmentIntegrity handle hostChainId api crates (some cfg) fetched ctData).run
        tr r ↔
      ∃ fresh tr₁ tr₂, tr = tr₁ ++ tr₂
        ∧ Run (refreshCommitment cfg handle hostChainId).run tr₁ fresh
        ∧ match fresh with
          | .ok c =>
            if c.1 = crates.keccak256 ctData then
              r = .ok () ∧ tr₂ = [⟨.log (commitmentLog "stale_cache_refreshed" none), ()⟩]
            else Run (judgeCommitment api cfg.warnOnly (crates.keccak256 ctData) c).run tr₂ r
          | .error .notFound =>
            Run (refuse cfg.warnOnly "not_found" () (api.retryable .commitmentPending)).run tr₂ r
          | .error _ => ∃ tr₃, tr₂ = ⟨.log (commitmentLog "refresh_failed" none), ()⟩ :: tr₃
            ∧ Run (judgeCommitment api cfg.warnOnly (crates.keccak256 ctData)
                fetched.hash).run tr₃ r := by
  simp only [enforceCommitmentIntegrity, Option.any_some]
  rw [if_pos hm, run_liftBind]
  constructor
  · rintro ⟨tr₁, tr₂, fresh, rfl, h₁, h₂⟩
    refine ⟨fresh, tr₁, tr₂, rfl, h₁, ?_⟩
    rcases fresh with (_ | m | d | m) | c
    · exact h₂
    · obtain ⟨x, tr₃, rfl, h⟩ := run_attemptBind.1 h₂
      exact ⟨tr₃, rfl, h⟩
    · obtain ⟨x, tr₃, rfl, h⟩ := run_attemptBind.1 h₂
      exact ⟨tr₃, rfl, h⟩
    · obtain ⟨x, tr₃, rfl, h⟩ := run_attemptBind.1 h₂
      exact ⟨tr₃, rfl, h⟩
    · simp only at h₂ ⊢
      split_ifs at h₂ ⊢ with hc
      · obtain ⟨x, rfl, rfl⟩ := run_attempt.1 h₂
        exact ⟨rfl, rfl⟩
      · exact h₂
  · rintro ⟨fresh, tr₁, tr₂, rfl, h₁, h₂⟩
    refine ⟨tr₁, tr₂, fresh, rfl, h₁, ?_⟩
    rcases fresh with (_ | m | d | m) | c
    · exact h₂
    · obtain ⟨tr₃, rfl, h⟩ := h₂
      exact run_attemptBind.2 ⟨(), tr₃, rfl, h⟩
    · obtain ⟨tr₃, rfl, h⟩ := h₂
      exact run_attemptBind.2 ⟨(), tr₃, rfl, h⟩
    · obtain ⟨tr₃, rfl, h⟩ := h₂
      exact run_attemptBind.2 ⟨(), tr₃, rfl, h⟩
    · simp only at h₂ ⊢
      split_ifs at h₂ ⊢ with hc
      · obtain ⟨rfl, rfl⟩ := h₂
        exact run_attempt.2 ⟨(), rfl, rfl⟩
      · exact h₂

end Commitment

section Acp

variable {crates : Crates} {cfg : ChainsVerifierConfig} {handle : U256} {hostChainId : UInt64}
  {acp : Option AcpData} {api : ApiVersion} {tr : Trace sig}

theorem run_checkAllowed_ok {cfg : ChainConfig} {x : RpcResult Bool} :
    Run (checkAllowed cfg x).run tr (.ok ()) ↔ tr = [] ∧ x = .ok true := by
  rcases x with (_ | _) | e | _
  · simp [checkAllowed, run_pure]
  · simp [checkAllowed, run_pure]
  · simp [checkAllowed, run_pure]
  · simp [checkAllowed, run_pure]

/-- In `tr`, the TaskManager of the request's chain allowed the request: the ACP it carries, or
the handle's public decryption. -/
def AclAllowed (parse : AddressParser) (cfg : ChainsVerifierConfig) (handle : U256)
    (hostChainId : UInt64) (acp : Option AcpData) (tr : Trace sig) : Prop :=
  ∃ chain, cfg.get hostChainId = some chain ∧
    match acp with
    | some acp => ∃ permission, ACP.tryFrom parse acp = .ok permission
        ∧ ⟨.isAllowedWithPermission chain permission handle, .ok true⟩ ∈ tr
    | none => ⟨.isPubliclyAllowed chain handle, .ok true⟩ ∈ tr

/-- A check of an ACP that passes is one call with it, on the request's chain. -/
theorem run_verifyViaTaskmanager_ok {parse : AddressParser} {acp : AcpData}
    (h : Run (verifyViaTaskmanager parse cfg acp handle hostChainId).run tr (.ok ())) :
    ∃ chain permission, cfg.get hostChainId = some chain ∧ ACP.tryFrom parse acp = .ok permission
      ∧ tr = [⟨.isAllowedWithPermission chain permission handle, .ok true⟩] := by
  unfold verifyViaTaskmanager at h
  rcases hc : cfg.get hostChainId with _ | chain
  · simp [hc, run_pure] at h
  simp only [hc] at h
  rcases run_exceptBind.1 h with ⟨e, he, -⟩ | ⟨tr₁, tr₂, permission, rfl, h₁, h₂⟩
  · simp at he
  obtain ⟨rfl, ⟨a, hp, ha⟩ | ⟨e, -, he⟩⟩ := run_ofExec.1 h₁
  · simp only [Except.ok.injEq] at ha
    subst ha
    obtain ⟨x, tr', rfl, h'⟩ := run_attemptBind.1 h₂
    obtain ⟨rfl, rfl⟩ := run_checkAllowed_ok.1 h'
    exact ⟨chain, permission, rfl, hp, rfl⟩
  · simp at he

theorem aclAllowed_of_verifyAcp
    (h : Run (verifyAcp crates cfg handle hostChainId acp).run tr (.ok ())) :
    AclAllowed crates.parseAddress cfg handle hostChainId acp tr := by
  rcases acp with _ | acp
  · simp only [verifyAcp, verifyPubliclyAllowed] at h
    rcases hc : cfg.get hostChainId with _ | chain
    · simp [hc, run_pure] at h
    · simp only [hc] at h
      obtain ⟨x, tr', rfl, h'⟩ := run_attemptBind.1 h
      obtain ⟨rfl, rfl⟩ := run_checkAllowed_ok.1 h'
      exact ⟨chain, hc, by simp⟩
  · obtain ⟨chain, permission, hc, hp, rfl⟩ := run_verifyViaTaskmanager_ok h
    exact ⟨chain, hc, permission, hp, by simp⟩

theorem run_enforceAcp {r : Option Response} :
    Run (enforceAcp crates cfg handle hostChainId acp api) tr r ↔
      (r = none ∧ Run (verifyAcp crates cfg handle hostChainId acp).run tr (.ok ()))
      ∨ ∃ e, r = some (acpResponse api acp.isSome e)
        ∧ Run (verifyAcp crates cfg handle hostChainId acp).run tr (.error e) := by
  rw [enforceAcp, bind_eq, run_bind]
  constructor
  · rintro ⟨tr₁, tr₂, e | ⟨⟩, rfl, h₁, h₂⟩
    · obtain ⟨rfl, rfl⟩ := run_pure.1 h₂
      exact .inr ⟨e, rfl, by simpa using h₁⟩
    · obtain ⟨rfl, rfl⟩ := run_pure.1 h₂
      exact .inl ⟨rfl, by simpa using h₁⟩
  · rintro (⟨rfl, h⟩ | ⟨e, rfl, h⟩)
    · exact ⟨tr, [], .ok (), by simp, h, run_pure.2 ⟨rfl, rfl⟩⟩
    · exact ⟨tr, [], .error e, by simp, h, run_pure.2 ⟨rfl, rfl⟩⟩

end Acp

section Frame

/-- The operations on the commitment cache. -/
def touchesCache : Op → Bool
  | .getFromCache _ => true
  | .putInCache _ _ => true
  | .evictFromCache _ => true
  | _ => false

/-- The operations on the caches of v2 results. -/
def touchesResults : Op → Bool
  | .v2CachePut _ _ => true
  | .v2CacheGet _ => true
  | .v2SealCachePut _ _ => true
  | .v2SealCacheGet _ => true
  | _ => false

/-- A read of the commitment cache changes nothing but the cache. -/
theorem getFromCache_frame (ttl : ℕ) (s : Shared) (key : CommitKey) :
    ∃ cache, (s.getFromCache ttl key).2 = { s with cache } := by
  unfold Shared.getFromCache
  split
  · exact ⟨_, rfl⟩
  · split_ifs
    · exact ⟨_, rfl⟩
    · exact ⟨_, rfl⟩

/-- No operation of a request moves the clock, and each leaves the caches it is not on as they
are. -/
theorem perform_frame {ttl : ℕ} {s s' : Shared} {e : Event sig} (h : s.perform ttl e.1 e.2 s') :
    s'.now = s.now ∧ (touchesCache e.1 = false → s'.cache = s.cache)
      ∧ (touchesResults e.1 = false → s'.v2Cache = s.v2Cache ∧ s'.v2SealCache = s.v2SealCache) := by
  obtain ⟨o, x⟩ := e
  cases o with
  | getFromCache key =>
    have hs : s' = (s.getFromCache ttl key).2 := congrArg Prod.snd h
    obtain ⟨cache, hc⟩ := getFromCache_frame ttl s key
    rw [hs, hc]
    exact ⟨rfl, fun ht => (by cases ht), fun _ => ⟨rfl, rfl⟩⟩
  | tryAdmit =>
    simp only [Shared.perform] at h
    split_ifs at h
    · rw [h.2]
      exact ⟨rfl, fun _ => rfl, fun _ => ⟨rfl, rfl⟩⟩
    · rw [h.2]
      exact ⟨rfl, fun _ => rfl, fun _ => ⟨rfl, rfl⟩⟩
  | acquireDecrypt => rw [h.2]; exact ⟨rfl, fun _ => rfl, fun _ => ⟨rfl, rfl⟩⟩
  | spawnBlocking => rw [h.2]; exact ⟨rfl, fun _ => rfl, fun _ => ⟨rfl, rfl⟩⟩
  | joinBlocking task => rw [h.2]; exact ⟨rfl, fun _ => rfl, fun _ => ⟨rfl, rfl⟩⟩
  | v2CacheGet id => rw [h.2]; exact ⟨rfl, fun _ => rfl, fun ht => by cases ht⟩
  | v2SealCacheGet id => rw [h.2]; exact ⟨rfl, fun _ => rfl, fun ht => by cases ht⟩
  | panic p => exact x.elim
  | _ =>
    obtain rfl : s' = _ := h
    refine ⟨rfl, fun ht => ?_, fun ht => ?_⟩
    · first
      | rfl
      | cases ht
    · first
      | exact ⟨rfl, rfl⟩
      | cases ht

end Frame

end Teecryptor
