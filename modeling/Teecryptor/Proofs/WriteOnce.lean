import Teecryptor.Proofs.Lookups

/-!
# The commitment gate over a write-once registry

The gate with the cache gives every request the verdict of the gate without one
(`gate_transparent`), if each handle's value in the registry is written once and every read is
answered.
-/

namespace Teecryptor

open Interact Interact.Prog Rust

/-- A request at the commitment gate, with the bytes ct-server serves it if it gets that far. -/
structure GateCall where
  handle : U256
  hostChainId : UInt64
  api : ApiVersion
  served : Option (List UInt8)

def GateCall.key (g : GateCall) : CommitKey := (g.hostChainId, g.handle)

/-- `enforce_commitment`, then `enforce_commitment_integrity` on what was fetched. -/
def gateAttempt (crates : Crates) (cfg : CommitmentConfig) (g : GateCall) :
    Attempt Response Unit := do
  match ← enforceCommitment g.handle g.hostChainId g.api cfg, g.served with
  | some fetched, some ctData =>
    enforceCommitmentIntegrity g.handle g.hostChainId g.api crates (some cfg) fetched ctData
  | _, _ => pure ()

def gate (crates : Crates) (cfg : CommitmentConfig) (g : GateCall) : Task (Except Response Unit) :=
  (gateAttempt crates cfg g).run

/-- A failed check of the gate stops the request, or in warn-only mode does not. -/
def refusal (warnOnly : Bool) (resp : Response) : Except Response Unit :=
  if warnOnly then .ok () else .error resp

/-- The verdict of the gate without a cache, when the registry holds `commit`. -/
def uncachedVerdict (crates : Crates) (cfg : CommitmentConfig) (g : GateCall)
    (commit : FixedBytes 32) : Except Response Unit :=
  if commit = .zero 32 then refusal cfg.warnOnly (g.api.retryable .commitmentPending)
  else match g.served with
    | none => .ok ()
    | some ctData =>
      if crates.keccak256 ctData = commit then .ok ()
      else refusal cfg.warnOnly (g.api.err 502 "commitment_mismatch")

/-! ## One request -/

section Request

variable {crates : Crates} {cfg : CommitmentConfig} {g : GateCall} {tr : Trace sig}

/-- Every read of the registry in `tr` was answered. -/
def AllAnswered (tr : Trace sig) : Prop :=
  ∀ v hd x, (⟨.getCommitment v hd, x⟩ : Event sig) ∈ tr → ∃ b, x = .ok b

theorem refuse_verdict {warnOnly : Bool} {reason : String} {resp : Response}
    {r : Except Response Unit} (h : Run (refuse warnOnly reason () resp).run tr r) :
    r = refusal warnOnly resp ∧ hashes tr = [] := by
  rcases run_refuse.1 h with ⟨hw, rfl, rfl⟩ | ⟨hw, rfl, rfl⟩
  · exact ⟨by simp [refusal, hw], rfl⟩
  · exact ⟨by simp [refusal, hw], rfl⟩

theorem judge_verdict {ctData : List UInt8} (hs : g.served = some ctData) {c : CommitHash}
    {r : Except Response Unit}
    (h : Run (judgeCommitment g.api cfg.warnOnly (crates.keccak256 ctData) c).run tr r) :
    r = uncachedVerdict crates cfg g c.1 ∧ hashes tr = [] := by
  simp only [uncachedVerdict, if_neg c.2, hs]
  rcases run_judgeCommitment.1 h with ⟨he, rfl, rfl⟩ | ⟨hne, h⟩
  · exact ⟨by rw [if_pos he], rfl⟩
  · rw [if_neg hne]
    exact refuse_verdict h

theorem AllAnswered.mono {tr' : Trace sig} (h : AllAnswered tr) (hs : ∀ e ∈ tr', e ∈ tr) :
    AllAnswered tr' := fun v hd x hx => h v hd x (hs _ hx)

/-- A read that is answered gives a hash, or zero. -/
theorem refresh_answered {r : Except CommitmentError CommitHash} (hans : AllAnswered tr)
    (h : Run (refreshCommitment cfg g.handle g.hostChainId).run tr r) :
    (∃ c : CommitHash, r = .ok c ∧ hashes tr = [c.1])
      ∨ (r = .error .notFound ∧ hashes tr = [.zero 32]) := by
  rcases (run_refreshCommitment _ _ _).1 h with ⟨c, rfl, rfl⟩ | ⟨rfl, rfl⟩ | ⟨-, rfl⟩ | ⟨e, -, rfl⟩
  · exact .inl ⟨c, rfl, rfl⟩
  · exact .inr ⟨rfl, rfl⟩
  · obtain ⟨b, hb⟩ := hans _ _ _ (List.mem_singleton_self _)
    cases hb
  · obtain ⟨b, hb⟩ := hans _ _ _ (List.mem_singleton_self _)
    cases hb

theorem fetch_answered {r : Except CommitmentError FetchedCommitment} (hans : AllAnswered tr)
    (h : Run (fetchCommitment cfg g.handle g.hostChainId).run tr r) :
    (∃ c, r = .ok ⟨c, true⟩ ∧ tr = [⟨.getFromCache g.key, some c⟩])
      ∨ (∃ c : CommitHash, r = .ok ⟨c, false⟩ ∧ hashes tr = [c.1])
      ∨ (r = .error .notFound ∧ hashes tr = [.zero 32]) := by
  rcases (run_fetchCommitment _ _ _).1 h with ⟨c, rfl, rfl⟩ | ⟨r', tr', rfl, rfl, hR⟩
  · exact .inl ⟨c, rfl, rfl⟩
  · rcases refresh_answered (hans.mono fun e he => List.mem_cons_of_mem _ he) hR with
      ⟨c, rfl, hh⟩ | ⟨rfl, hh⟩
    · exact .inr (.inl ⟨c, rfl, hh⟩)
    · exact .inr (.inr ⟨rfl, hh⟩)

/-- Served bytes are judged against the hash the lookup gave, or if that one was cached against
one read after it. -/
theorem integrity_verdict {ctData : List UInt8} (hs : g.served = some ctData)
    {f : FetchedCommitment} {r : Except Response Unit} (hans : AllAnswered tr)
    (h : Run (enforceCommitmentIntegrity g.handle g.hostChainId g.api crates (some cfg) f
      ctData).run tr r) :
    (r = uncachedVerdict crates cfg g f.hash.1 ∧ hashes tr = [])
      ∨ (f.fromCache = true ∧ ∃ v, r = uncachedVerdict crates cfg g v ∧ hashes tr = [v]) := by
  by_cases hm : crates.keccak256 ctData ≠ f.hash.1 ∧ f.fromCache = true
  · obtain ⟨fresh, tr₁, tr₂, rfl, h₁, h₂⟩ := (run_integrity_reread hm).1 h
    refine .inr ⟨hm.2, ?_⟩
    rcases refresh_answered (hans.mono fun e he => List.mem_append_left _ he) h₁ with
      ⟨c, rfl, hh⟩ | ⟨rfl, hh⟩
    · simp only at h₂
      refine ⟨c.1, ?_⟩
      split_ifs at h₂ with hc
      · obtain ⟨rfl, rfl⟩ := h₂
        refine ⟨?_, by rw [hashes_append, hh]; rfl⟩
        simp only [uncachedVerdict, if_neg c.2, hs]
        rw [if_pos hc.symm]
      · obtain ⟨rfl, hn⟩ := judge_verdict hs h₂
        exact ⟨rfl, by rw [hashes_append, hh, hn]; rfl⟩
    · obtain ⟨rfl, hn⟩ := refuse_verdict h₂
      exact ⟨.zero 32, by simp [uncachedVerdict], by rw [hashes_append, hh, hn]; rfl⟩
  · rw [integrity_judged hm] at h
    exact .inl (judge_verdict hs h)

theorem AllAnswered.left {tr₁ tr₂ : Trace sig} (h : AllAnswered (tr₁ ++ tr₂)) : AllAnswered tr₁ :=
  h.mono fun _ he => List.mem_append_left _ he

theorem AllAnswered.right {tr₁ tr₂ : Trace sig} (h : AllAnswered (tr₁ ++ tr₂)) : AllAnswered tr₂ :=
  h.mono fun _ he => List.mem_append_right _ he

/-- A lookup that fails was answered zero, and `enforce_commitment` answers it as pending. -/
theorem enforce_absent (crates : Crates) {trF trR : Trace sig} {e : CommitmentError}
    {o : Except Response (Option FetchedCommitment)} (hans : AllAnswered trF)
    (hF : Run (fetchCommitment cfg g.handle g.hostChainId).run trF (.error e))
    (hR : Run (refuse cfg.warnOnly (commitmentReason e) none (commitmentResponse g.api e)).run
      trR o) :
    hashes (trF ++ trR) = [.zero 32]
      ∧ o.map (fun _ => ()) = uncachedVerdict crates cfg g (.zero 32)
      ∧ ∀ f, o ≠ .ok (some f) := by
  rcases fetch_answered hans hF with ⟨c, he, -⟩ | ⟨c, he, -⟩ | ⟨he, hh⟩
  · cases he
  · cases he
  cases he
  rw [hashes_append, hh]
  rcases run_refuse.1 hR with ⟨hw, rfl, rfl⟩ | ⟨hw, rfl, rfl⟩
  · refine ⟨rfl, ?_, fun f hf => by cases hf⟩
    simp [uncachedVerdict, refusal, hw, Except.map]
  · refine ⟨rfl, ?_, fun f hf => by cases hf⟩
    simp [uncachedVerdict, refusal, hw, Except.map, commitmentResponse]

/-- What is judged after a lookup that found a hash. -/
theorem found_judged {trF trI : Trace sig} {f : FetchedCommitment} {r : Except Response Unit}
    (hans : AllAnswered (trF ++ trI))
    (hF : Run (fetchCommitment cfg g.handle g.hostChainId).run trF (.ok f))
    (hI : (g.served = none ∧ trI = [] ∧ r = .ok ()) ∨ ∃ ctData, g.served = some ctData
      ∧ Run (enforceCommitmentIntegrity g.handle g.hostChainId g.api crates (some cfg) f
        ctData).run trI r) :
    ∃ v, r = uncachedVerdict crates cfg g v ∧ (hashes (trF ++ trI) = [v]
      ∨ ∃ (c : CommitHash) (tr' : Trace sig),
        trF ++ trI = ⟨.getFromCache g.key, some c⟩ :: tr' ∧ hashes tr' = [v]) := by
  have hfound : hashes trF = [f.hash.1]
      ∧ (f.fromCache = true → trF = [⟨.getFromCache g.key, some f.hash⟩]) := by
    rcases fetch_answered hans.left hF with ⟨c, hf, rfl⟩ | ⟨c, hf, hh⟩ | ⟨hf, -⟩
    · cases hf
      exact ⟨rfl, fun _ => rfl⟩
    · cases hf
      exact ⟨hh, fun hc => by cases hc⟩
    · cases hf
  obtain ⟨hhash, hhit⟩ := hfound
  rcases hI with ⟨hs, rfl, rfl⟩ | ⟨ctData, hs, hI⟩
  · refine ⟨f.hash.1, ?_, .inl (by rw [List.append_nil, hhash])⟩
    simp only [uncachedVerdict, if_neg f.hash.2, hs]
  · rcases integrity_verdict hs hans.right hI with ⟨hr, hn⟩ | ⟨hc, v, hr, hv⟩
    · exact ⟨f.hash.1, hr, .inl (by rw [hashes_append, hhash, hn]; rfl)⟩
    · refine ⟨v, hr, .inr ⟨f.hash, trI, ?_, hv⟩⟩
      rw [hhit hc]
      rfl

/-- The verdict on a request is the one on the last hash it obtained. It obtained one before only
by a hit, first of all. -/
theorem gate_judged {r : Except Response Unit} (hans : AllAnswered tr)
    (h : Run (gate crates cfg g) tr r) :
    ∃ v, r = uncachedVerdict crates cfg g v ∧ (hashes tr = [v]
      ∨ ∃ (c : CommitHash) (tr' : Trace sig), tr = ⟨.getFromCache g.key, some c⟩ :: tr'
        ∧ hashes tr' = [v]) := by
  rcases run_exceptBind.1 h with ⟨resp, rfl, hE⟩ | ⟨trE, trI, o, rfl, hE, hI⟩
  · rcases run_enforceCommitment.1 hE with ⟨f, hf, -⟩ | ⟨e, tr₁, tr₂, rfl, h₁, h₂⟩
    · cases hf
    obtain ⟨hh, ho, -⟩ := enforce_absent crates hans.left h₁ h₂
    exact ⟨.zero 32, ho, .inl hh⟩
  · rcases run_enforceCommitment.1 hE with ⟨f, hf, hF⟩ | ⟨e, tr₁, tr₂, rfl, h₁, h₂⟩
    · cases hf
      refine found_judged hans hF ?_
      rcases hs : g.served with _ | ctData
      · simp only [hs] at hI
        exact .inl ⟨rfl, run_exceptPure.1 hI⟩
      · simp only [hs] at hI
        exact .inr ⟨ctData, rfl, hI⟩
    · obtain ⟨hh, ho, hne⟩ := enforce_absent crates hans.left.left h₁ h₂
      rcases o with _ | f
      · obtain ⟨rfl, rfl⟩ := run_exceptPure.1 hI
        exact ⟨.zero 32, ho, .inl (by rw [List.append_nil]; exact hh)⟩
      · exact absurd rfl (hne f)

/-- The operation asks the cache or the registry about the request's own key, or neither. -/
def GateCall.Asks (g : GateCall) : Op → Prop
  | .getFromCache k => k = g.key
  | .getCommitment _ hd => hd = toBeBytes g.handle
  | _ => True

theorem asks_refresh :
    Always (Only fun e => g.Asks e.1) (refreshCommitment cfg g.handle g.hostChainId).run := by
  intro tr p h
  rcases steps_refreshCommitment h with rfl | ⟨x, rfl⟩ | ⟨commit, rfl⟩ | rfl
  all_goals simp [Only, GateCall.Asks]

theorem asks_gate (g : GateCall) : Always (Only fun e => g.Asks e.1) (gate crates cfg g) := by
  have hO := mixes_only (S := sig) fun e => g.Asks e.1
  have hlog : ∀ reason mode,
      Only (S := sig) (fun e => g.Asks e.1) [⟨.log (commitmentLog reason mode), ()⟩] := by
    simp [Only, GateCall.Asks]
  have hget : ∀ x,
      Only (S := sig) (fun e => g.Asks e.1) [⟨.getFromCache (g.hostChainId, g.handle), x⟩] := by
    simp [Only, GateCall.Asks, GateCall.key]
  refine hO.exceptBind (always_enforceCommitment hO hlog
    (always_fetchCommitment hO hget asks_refresh)) fun o => ?_
  split
  · refine always_integrity hO hlog crates (fun cfg' hc => ?_) _ _
    cases hc
    exact asks_refresh
  · exact always_exceptPure hO _

theorem readsBack_gate (g : GateCall) : Always (ReadsBack cfg.version) (gate crates cfg g) := by
  have hM := mixes_readsBack cfg.version
  refine hM.exceptBind (always_enforceCommitment hM (readsBack_log _)
    readsBack_fetchCommitment) fun o => ?_
  split
  · refine always_integrity hM (readsBack_log _) crates (fun cfg' hc => ?_) _ _
    cases hc
    exact readsBack_refreshCommitment
  · exact always_exceptPure hM _

end Request

/-! ## Every interleaving -/

/-- Each handle's value is zero until it is written, and stays as it is from then on. -/
def WriteOnce (reg : ℕ → FixedBytes 32 → FixedBytes 32) : Prop :=
  ∀ i j hd, i ≤ j → reg i hd ≠ .zero 32 → reg j hd = reg i hd

section Runs

variable {crates : Crates} {cfg : CommitmentConfig} {reg : ℕ → FixedBytes 32 → FixedBytes 32}
  {s₀ : Shared} {c : Config (shared cfg.cacheTtl) GateCall (Except Response Unit)}

/-- Every read is answered, with what the registry holds when it is made: `reg i` is the registry
at the run's operation `i`. -/
def AnswersAre {ttl : ℕ} (reg : ℕ → FixedBytes 32 → FixedBytes 32)
    (hist : List (Entry (shared ttl) GateCall)) : Prop :=
  ∀ (i : ℕ) e v hd x, hist[i]? = some e → e.event = ⟨.getCommitment v hd, x⟩ → x = .ok (reg i hd)

theorem hashOf_cases {e : Event sig} {v : FixedBytes 32} (h : hashOf e = some v) :
    (∃ k c, e = ⟨.getFromCache k, some c⟩ ∧ v = c.1)
      ∨ ∃ ver hd, e = ⟨.getCommitment ver hd, .ok v⟩ := by
  unfold hashOf at h
  split at h
  next k hit =>
    obtain ⟨c, rfl, rfl⟩ := Option.map_eq_some_iff.1 h
    exact .inl ⟨k, c, rfl, rfl⟩
  next ver hd commit =>
    cases h
    exact .inr ⟨ver, hd, rfl⟩
  next => cases h

/-- What a request obtains, from the cache or by a read, is what the registry holds then. -/
theorem obtained_reg (hw : WriteOnce reg) (h₀ : s₀.cache.entries = [])
    (hc : Reachable (gate crates cfg) s₀ c) (hreg : AnswersAre reg c.hist) {i : ℕ}
    {e : Entry (shared cfg.cacheTtl) GateCall} (hi : c.hist[i]? = some e) {v : FixedBytes 32}
    (hv : hashOf e.event = some v) : v = reg i (toBeBytes e.job.handle) := by
  have he : e ∈ c.hist := List.mem_of_getElem? hi
  have hasks : e.job.Asks e.event.1 :=
    hc.entry_always (Q := fun g ev => g.Asks ev.1) asks_gate e he
  rcases hashOf_cases hv with ⟨k, commit, hev, rfl⟩ | ⟨ver, hd, hev⟩
  · have hk : k = e.job.key := by
      rw [hev] at hasks
      exact hasks
    have hperf := hc.performs e he
    rw [hev] at hperf
    obtain ⟨entry, hfind, rfl, -, -⟩ := getFromCache_hit hperf
    -- the cached hash was answered before, and a value once written stays
    obtain ⟨c₁, hc₁, hhist, hstate⟩ := hc.before_at hi
    rw [← hstate] at hfind
    obtain ⟨-, -, -, -, -, a, ha, -, -, hread⟩ := cached_read readsBack_gate h₀ hc₁ hfind
    obtain ⟨j, hj⟩ := List.mem_iff_getElem?.1 ha
    rw [hhist, List.getElem?_take] at hj
    split_ifs at hj with hlt
    have hans := RpcResult.ok.inj (hreg j a _ _ _ hj hread)
    have hkeep := hw j i (toBeBytes k.2) (by omega) (hans ▸ entry.commit.2)
    rw [hans, ← hkeep, hk]
    rfl
  · have hhd : hd = toBeBytes e.job.handle := by
      rw [hev] at hasks
      exact hasks
    have hans := RpcResult.ok.inj (hreg i e _ _ _ hi hev)
    rw [hans, hhd]

/-- The event that brought a request the hash `v`, with where it stands in the run. -/
theorem mem_hashes {pid : ℕ} {v : FixedBytes 32} (h : v ∈ hashes (c.eventsOf pid)) :
    ∃ (i : ℕ) (e : Entry (shared cfg.cacheTtl) GateCall), c.hist[i]? = some e ∧ e.pid = pid
      ∧ hashOf e.event = some v := by
  obtain ⟨ev, hev, hv⟩ := List.mem_filterMap.1 h
  obtain ⟨e, he, hpid, rfl⟩ := mem_eventsOf.1 hev
  obtain ⟨i, hi⟩ := List.mem_iff_getElem?.1 he
  exact ⟨i, e, hi, hpid, hv⟩

/-- A hash read again after a hit is the hash of the hit. -/
theorem reread_eq (hw : WriteOnce reg) (h₀ : s₀.cache.entries = [])
    (hc : Reachable (gate crates cfg) s₀ c) (hreg : AnswersAre reg c.hist) {pid : ℕ}
    {k : CommitKey} {commit : CommitHash} {tr : Trace sig} {v : FixedBytes 32}
    (htr : c.eventsOf pid = ⟨.getFromCache k, some commit⟩ :: tr) (hv : v ∈ hashes tr) :
    v = commit.1 := by
  obtain ⟨i, e, hi, hpid, hev, hlater⟩ := eventsOf_eq_cons htr
  obtain ⟨ev, hmem, hhash⟩ := List.mem_filterMap.1 hv
  obtain ⟨j, e', hlt, hj, hpid', rfl⟩ := hlater ev hmem
  have hfirst : commit.1 = reg i (toBeBytes e.job.handle) :=
    obtained_reg hw h₀ hc hreg hi (by rw [hev]; rfl)
  have hsecond : v = reg j (toBeBytes e'.job.handle) := obtained_reg hw h₀ hc hreg hj hhash
  have hjob : e'.job = e.job :=
    hc.job_eq (List.mem_of_getElem? hi) (List.mem_of_getElem? hj) (hpid'.trans hpid.symm)
  rw [hsecond, hjob, hfirst]
  exact hw i j _ (by omega) (hfirst ▸ commit.2)

end Runs

/-- Over a write-once registry that answers every read, the verdict on each request is the one the
gate without a cache gives on what the registry holds when the request obtains its commitment, by a
hit or by a read; and it does obtain one. -/
theorem gate_transparent (crates : Crates) (cfg : CommitmentConfig)
    (reg : ℕ → FixedBytes 32 → FixedBytes 32) (hw : WriteOnce reg) (s₀ : Shared)
    (h₀ : s₀.cache.entries = []) (c : Config (shared cfg.cacheTtl) GateCall (Except Response Unit))
    (hc : Reachable (gate crates cfg) s₀ c) (hreg : AnswersAre reg c.hist) (pid : ℕ)
    (t : Thread sig GateCall (Except Response Unit)) (r : Except Response Unit)
    (ht : c.threads pid = some t) (hr : t.rest = .pure r) :
    (∃ (i : ℕ) (e : Entry (shared cfg.cacheTtl) GateCall), c.hist[i]? = some e ∧ e.pid = pid
      ∧ (hashOf e.event).isSome)
    ∧ ∀ (i : ℕ) (e : Entry (shared cfg.cacheTtl) GateCall), c.hist[i]? = some e → e.pid = pid →
      (hashOf e.event).isSome →
      r = uncachedVerdict crates cfg t.job (reg i (toBeBytes t.job.handle)) := by
  have hok := hc.poolOk.thread pid t ht
  have hans : AllAnswered t.trace := by
    intro v hd x hx
    obtain ⟨e, he, -, hev⟩ := (hc.mem_trace ht).1 hx
    obtain ⟨i, hi⟩ := List.mem_iff_getElem?.1 he
    exact ⟨_, hreg i e v hd x hi hev⟩
  obtain ⟨v, hverdict, hjudged⟩ := gate_judged hans (hc.run ht hr)
  rw [hok.trace] at hjudged
  -- the last hash is the only one, or the hit before it gave the same
  have hall : v ∈ hashes (c.eventsOf pid) ∧ ∀ w ∈ hashes (c.eventsOf pid), w = v := by
    rcases hjudged with hh | ⟨commit, tr, htr, hh⟩
    · rw [hh]
      exact ⟨List.mem_singleton_self v, fun w hm => List.mem_singleton.1 hm⟩
    · have hv : v = commit.1 := reread_eq hw h₀ hc hreg htr (by rw [hh]; simp)
      have hcons : hashes (c.eventsOf pid) = [commit.1, v] := by
        rw [htr]
        exact congrArg (commit.1 :: ·) hh
      rw [hcons, ← hv]
      exact ⟨List.mem_cons_self .., fun w hm => by simpa using hm⟩
  obtain ⟨i, e, hi, hpid, hev⟩ := mem_hashes hall.1
  refine ⟨⟨i, e, hi, hpid, by rw [hev]; rfl⟩, ?_⟩
  intro i e hi hpid hsome
  obtain ⟨w, hw'⟩ := Option.isSome_iff_exists.1 hsome
  have hmem : w ∈ hashes (c.eventsOf pid) := List.mem_filterMap.2
    ⟨e.event, mem_eventsOf.2 ⟨e, List.mem_of_getElem? hi, hpid, rfl⟩, hw'⟩
  rw [hverdict, ← hall.2 w hmem, obtained_reg hw h₀ hc hreg hi hw',
    hok.job e (List.mem_of_getElem? hi) hpid]

def sampleCall : GateCall := ⟨0, 1, .v1, some []⟩

theorem sample_gate {tr : Trace sig} {fromCache : Bool}
    (h : Run (fetchCommitment sampleConfig 0 1).run tr (.ok ⟨sampleHash, fromCache⟩)) :
    Run (gate sampleCrates sampleConfig sampleCall) tr (.ok ()) := by
  refine run_exceptBind.2 (.inr ⟨tr, [], some ⟨sampleHash, fromCache⟩, by simp,
    run_enforceCommitment.2 (.inl ⟨_, rfl, h⟩), ?_⟩)
  simp only [sampleCall]
  rw [integrity_judged (by simp [sampleCrates, sampleHash])]
  exact run_judgeCommitment.2 (.inl ⟨rfl, rfl, rfl⟩)

/-- A request reads a commitment that was there from the start, and a second one finds it in the
cache. -/
theorem gate_transparent_sample :
    ∃ (c : Config (shared 10) GateCall (Except Response Unit))
      (t : Thread sig GateCall (Except Response Unit)),
      Reachable (gate sampleCrates sampleConfig) sampleShared c
        ∧ AnswersAre (fun _ _ => sampleHash.1) c.hist
        ∧ c.threads 1 = some t ∧ t.trace = [⟨.getFromCache (1, 0), some sampleHash⟩]
        ∧ t.rest = .pure (uncachedVerdict sampleCrates sampleConfig sampleCall sampleHash.1) := by
  have hmiss := sample_gate sample_lookup
  have hhit := sample_gate ((run_fetchCommitment _ _ _).2 (.inl ⟨sampleHash, rfl, rfl⟩))
  obtain ⟨c₁, first, hc₁, hs₁, hn₁, hh₁, hev₁, -, -, -⟩ :=
    reachable_next Reachable.start hmiss (sample_lookup_performs 10)
  have hget : ∃ s, (shared 10).Performs c₁.state [⟨.getFromCache (1, 0), some sampleHash⟩] s := by
    rw [hs₁]
    refine ⟨((sampleShared.putInCache (1, 0) sampleHash).getFromCache 10 (1, 0)).2,
      .step ?_ (.nil .refl)⟩
    have hfind : (sampleShared.putInCache (1, 0) sampleHash).cache.find (1, 0)
        = some ⟨sampleHash, 0⟩ := Lru.find_put_self _ _ _
    refine Prod.ext ?_ rfl
    simp only [Shared.getFromCache, Lru.get, hfind]
    rfl
  obtain ⟨s, hs⟩ := hget
  obtain ⟨c, second, hc, -, -, hh, hev, -, ht, -⟩ := reachable_next hc₁ hhit hs
  have hhist : c.hist.map Entry.event
      = sampleLookup ++ [⟨.getFromCache (1, 0), some sampleHash⟩] := by
    rw [hh, hh₁, ← hev, ← hev₁]
    exact List.map_append
  have hreg : AnswersAre (fun _ _ => sampleHash.1) c.hist := by
    intro i e v hd x hi hev
    have hmem : (⟨.getCommitment v hd, x⟩ : Event sig)
        ∈ sampleLookup ++ [⟨.getFromCache (1, 0), some sampleHash⟩] := by
      rw [← hhist, ← hev]
      exact List.mem_map_of_mem (List.mem_of_getElem? hi)
    simp only [sampleLookup, List.cons_append, List.nil_append, List.mem_cons, Sigma.mk.injEq,
      reduceCtorEq, false_and, false_or, or_false, List.not_mem_nil,
      Op.getCommitment.injEq] at hmem
    obtain ⟨⟨rfl, rfl⟩, hx⟩ := hmem
    exact eq_of_heq hx
  obtain ⟨⟨i, e, hi, hpid, hsome⟩, hall⟩ := gate_transparent sampleCrates sampleConfig
    (fun _ _ => sampleHash.1) (fun _ _ _ _ _ => rfl) sampleShared rfl c hc hreg c₁.next _ _ ht rfl
  have hnext : c₁.next = 1 := hn₁
  refine ⟨c, _, hc, hreg, hnext ▸ ht, rfl, ?_⟩
  rw [← hall i e hi hpid hsome]

end Teecryptor
