import Teecryptor.Proofs.Alerting

/-!
# No request is refused on a stale hash

A cached hash can be left from a registry that was since replaced. In enforce mode it refuses no
request alone: the registry is read once more, and what it answers decides, repairs the cache, or
drops the key from it (`stale_never_refuses`).
-/

namespace Teecryptor

open Interact Interact.Prog Rust

section Cells

variable {crates : Crates} {cfg : CommitmentConfig} {g : GateCall} {tr : Trace sig}
  {v : Except Response Unit}

theorem Misfits.actual {c : FixedBytes 32} (h : Misfits crates g c) :
    ∃ a, g.actual crates = some a ∧ a ≠ c := by
  obtain ⟨d, hd, hne⟩ := h
  exact ⟨_, by simp [GateCall.actual, hd], hne⟩

/-- What a refusal with `commitment_mismatch` rests on: an answer of the registry, or a cached hash
that could not be read again. -/
def MismatchShown (hits : List CommitHash) (reads : List (RpcResult (FixedBytes 32)))
    (a : FixedBytes 32) : Prop :=
  (∃ b, reads = [.ok b] ∧ b ≠ .zero 32 ∧ b ≠ a)
    ∨ ∃ cached x, hits = [cached] ∧ cached.1 ≠ a ∧ reads = [x] ∧ Unanswered x

theorem refusal_eq_error {warnOnly : Bool} {r resp : Response}
    (h : refusal warnOnly r = .error resp) : warnOnly = false ∧ resp = r := by
  unfold refusal at h
  split_ifs at h with hw
  · exact ⟨Bool.eq_false_iff.2 hw, (Except.error.inj h).symm⟩

theorem cell_mismatch (h : GateCell crates cfg g tr v) {resp : Response} (hv : v = .error resp)
    (hm : resp.IsMismatch) :
    ∃ a, g.actual crates = some a ∧ MismatchShown (hits tr) (reads tr) a := by
  cases h
  case absent =>
    obtain ⟨-, rfl⟩ := refusal_eq_error hv
    exact absurd hm (retryable_not_mismatch _ _)
  case timeout =>
    obtain ⟨-, rfl⟩ := refusal_eq_error hv
    exact absurd hm (err_not_mismatch _ _ _ (by decide))
  case transport e =>
    obtain ⟨-, rfl⟩ := refusal_eq_error hv
    exact absurd hm (err_not_mismatch _ _ _ (by decide))
  case read => cases hv
  case readMismatch c hmis =>
    obtain ⟨a, ha, hne⟩ := hmis.actual
    exact ⟨a, ha, .inl ⟨c.1, rfl, c.2, hne.symm⟩⟩
  case hit => cases hv
  case rescued => cases hv
  case mismatch c fresh hmis hmis' =>
    obtain ⟨a, ha, hne⟩ := hmis'.actual
    exact ⟨a, ha, .inl ⟨fresh.1, rfl, fresh.2, hne.symm⟩⟩
  case gone c hmis =>
    obtain ⟨-, rfl⟩ := refusal_eq_error hv
    exact absurd hm (retryable_not_mismatch _ _)
  case unreached c x hmis hx =>
    obtain ⟨a, ha, hne⟩ := hmis.actual
    exact ⟨a, ha, .inr ⟨c, x, rfl, hne.symm, rfl, hx⟩⟩

/-- The registry is read once at most. -/
theorem cell_reads (h : GateCell crates cfg g tr v) : (reads tr).length ≤ 1 := by
  cases h
  case hit => exact Nat.zero_le _
  all_goals exact le_refl _

/-- After a hit, the registry is read only if the cached hash does not fit. What it then answers
passes or not as the served bytes do and is put in the cache, is absent and makes the request wait,
or is no answer. -/
theorem cell_reread (h : GateCell crates cfg g tr v) {cached : CommitHash}
    {x : RpcResult (FixedBytes 32)} (hhit : hits tr = [cached]) (hread : reads tr = [x]) :
    Misfits crates g cached.1 ∧
      ((∃ fresh : CommitHash, x = .ok fresh.1 ∧ (⟨.putInCache g.key fresh, ()⟩ : Event sig) ∈ tr
          ∧ (v = .ok () ∨ Misfits crates g fresh.1))
        ∨ (x = .ok (.zero 32) ∧ (⟨.evictFromCache g.key, ()⟩ : Event sig) ∈ tr
          ∧ v = refusal cfg.warnOnly (g.api.retryable .commitmentPending))
        ∨ Unanswered x) := by
  cases h
  case absent => cases hhit
  case timeout => cases hhit
  case transport e => cases hhit
  case read c hfit => cases hhit
  case readMismatch c hmis => cases hhit
  case hit c hfit => cases hread
  case rescued c fresh hmis hfit =>
    cases hhit
    cases hread
    exact ⟨hmis, .inl ⟨fresh, rfl, by simp, .inl rfl⟩⟩
  case mismatch c fresh hmis hmis' =>
    cases hhit
    cases hread
    exact ⟨hmis, .inl ⟨fresh, rfl, by simp, .inr hmis'⟩⟩
  case gone c hmis =>
    cases hhit
    cases hread
    exact ⟨hmis, .inr (.inl ⟨rfl, by simp, rfl⟩)⟩
  case unreached c y hmis hy =>
    cases hhit
    obtain rfl : y = x := List.singleton_inj.1 hread
    exact ⟨hmis, .inr (.inr hy)⟩

/-- After a hit, a registry that answers the hash of the served bytes lets them pass, and its
answer is put in the cache. -/
theorem cell_fresh (h : GateCell crates cfg g tr v) {cached fresh : CommitHash}
    (hhit : hits tr = [cached]) (hread : reads tr = [.ok fresh.1])
    (ha : g.actual crates = some fresh.1) :
    v = .ok () ∧ (⟨.putInCache g.key fresh, ()⟩ : Event sig) ∈ tr := by
  rcases (cell_reread h hhit hread).2 with ⟨fresh', hx, hput, hv⟩ | ⟨hx, -, -⟩ | hx
  · obtain rfl : fresh = fresh' := Subtype.ext (RpcResult.ok.inj hx)
    rcases hv with hv | hmis
    · exact ⟨hv, hput⟩
    · obtain ⟨a, ha', hne⟩ := hmis.actual
      rw [ha] at ha'
      exact absurd (Option.some.inj ha').symm hne
  · exact absurd (RpcResult.ok.inj hx) fresh.2
  · cases hx

/-- After a hit, a registry that answers zero makes the request wait, and the key is dropped from
the cache. -/
theorem cell_gone (h : GateCell crates cfg g tr v) {cached : CommitHash}
    (hhit : hits tr = [cached]) (hread : reads tr = [.ok (.zero 32)]) :
    v = refusal cfg.warnOnly (g.api.retryable .commitmentPending)
      ∧ (⟨.evictFromCache g.key, ()⟩ : Event sig) ∈ tr ∧ g.served.isSome := by
  obtain ⟨⟨d, hd, -⟩, ⟨fresh, hx, -, -⟩ | ⟨-, hevict, hv⟩ | hx⟩ := cell_reread h hhit hread
  · exact absurd (RpcResult.ok.inj hx).symm fresh.2
  · exact ⟨hv, hevict, by rw [hd]; rfl⟩
  · cases hx

end Cells

/-- In enforce mode, whatever the cache holds: a request is refused with `commitment_mismatch` only
on an answer of the registry to it, or when a cached hash that does not fit could not be read
again; a fresh answer that fits lets it pass and is then cached, an absent one makes it wait and
drops the key; and there is at most one read, after a hit only if that does not fit. -/
theorem stale_never_refuses (st : AppState) {cfg : CommitmentConfig}
    (hv : st.commitmentVerifier = some cfg) (hw : cfg.warnOnly = false) (s₀ : Shared)
    {c : Config (shared cfg.cacheTtl) Request Response} (hc : Reachable (serve st) s₀ c) {pid : ℕ}
    {t : Thread sig Request Response} (ht : c.threads pid = some t) {resp : Response}
    (hr : t.rest = .pure resp) {q : Ask} (hq : t.job.ask = some q)
    (hpermit : (⟨.tryAdmit, true⟩ : Event sig) ∈ t.trace) :
    ∃ handle v, Handle.parse q.ctTempkey = some handle
      ∧ Run (gate st.crates cfg (gateCall st handle q.hostChainId q.api t.trace))
        (eventsIn .commitment t.trace) v
      ∧ (resp.IsMismatch → ∃ data, served st handle q.api t.trace = some data
        ∧ MismatchShown (hits t.trace) (reads t.trace) (st.crates.keccak256 data))
      ∧ (∀ (cached fresh : CommitHash) (data : List UInt8), hits t.trace = [cached] →
        served st handle q.api t.trace = some data → fresh.1 = st.crates.keccak256 data →
        reads t.trace = [.ok fresh.1] → v = .ok ()
          ∧ ∃ e ∈ c.hist, e.pid = pid
            ∧ e.event = ⟨.putInCache (q.hostChainId, handle.u256) fresh, ()⟩
            ∧ (e.post.cache.find (q.hostChainId, handle.u256)).map (·.commit) = some fresh)
      ∧ (∀ cached, hits t.trace = [cached] → reads t.trace = [.ok (.zero 32)] →
        resp = q.api.retryable .commitmentPending
          ∧ ∃ e ∈ c.hist, e.pid = pid
            ∧ e.event = ⟨.evictFromCache (q.hostChainId, handle.u256), ()⟩
            ∧ e.post.cache.find (q.hostChainId, handle.u256) = none)
      ∧ (reads t.trace).length ≤ 1
      ∧ ∀ cached x, hits t.trace = [cached] → reads t.trace = [x] →
        ∃ data, served st handle q.api t.trace = some data
          ∧ st.crates.keccak256 data ≠ cached.1 := by
  obtain ⟨handle, v, hp, hgate, hdecides⟩ := serve_gate hq hv (hc.run ht hr) hpermit
  have hcell := gate_cells hgate
  -- the request's operations on the cache, with the state they left
  have hentry : ∀ ev ∈ eventsIn .commitment t.trace, ∃ e ∈ c.hist, e.pid = pid ∧ e.event = ev
      ∧ (shared cfg.cacheTtl).perform e.pre ev.1 ev.2 e.post := by
    intro ev hev
    exact hc.performs_trace ht (List.mem_of_mem_filter hev)
  have hactual : ∀ {a}, (gateCall st handle q.hostChainId q.api t.trace).actual st.crates = some a →
      ∃ data, served st handle q.api t.trace = some data ∧ st.crates.keccak256 data = a :=
    fun ha => Option.map_eq_some_iff.1 ha
  refine ⟨handle, v, hp, hgate, ?_, ?_, ?_, ?_, ?_⟩
  · intro hm
    obtain ⟨a, ha, hshown⟩ := cell_mismatch hcell (hdecides.mismatch resp rfl hm) hm
    obtain ⟨data, hdata, rfl⟩ := hactual ha
    rw [hits_eventsIn, reads_eventsIn] at hshown
    exact ⟨data, hdata, hshown⟩
  · intro cached fresh data hhit hdata hfresh hread
    rw [← hits_eventsIn] at hhit
    rw [← reads_eventsIn] at hread
    have ha : (gateCall st handle q.hostChainId q.api t.trace).actual st.crates = some fresh.1 := by
      rw [hfresh]
      exact congrArg (Option.map _) hdata
    obtain ⟨hok, hput⟩ := cell_fresh hcell hhit hread ha
    obtain ⟨e, he, hpid, hev, hperf⟩ := hentry _ hput
    refine ⟨hok, e, he, hpid, hev, ?_⟩
    have hpost : e.post = e.pre.putInCache (q.hostChainId, handle.u256) fresh := hperf
    rw [hpost]
    simp [Shared.putInCache]
  · intro cached hhit hread
    rw [← hits_eventsIn] at hhit
    rw [← reads_eventsIn] at hread
    obtain ⟨hpending, hevict, hserved⟩ := cell_gone hcell hhit hread
    obtain ⟨e, he, hpid, hev, hperf⟩ := hentry _ hevict
    refine ⟨?_, e, he, hpid, hev, ?_⟩
    · rw [hw] at hpending
      rcases hdecides.refuses _ hpending with hresp | ⟨hnone, -⟩
      · exact hresp
      · have hnone' : (gateCall st handle q.hostChainId q.api t.trace).served = none := hnone
        rw [hnone'] at hserved
        cases hserved
    · have hpost : e.post = e.pre.evictFromCache (q.hostChainId, handle.u256) := hperf
      rw [hpost]
      simp [Shared.evictFromCache]
  · have hreads := cell_reads hcell
    rwa [reads_eventsIn] at hreads
  · intro cached x hhit hread
    rw [← hits_eventsIn] at hhit
    rw [← reads_eventsIn] at hread
    obtain ⟨a, ha, hne⟩ := (cell_reread hcell hhit hread).1.actual
    obtain ⟨data, hdata, rfl⟩ := hactual ha
    exact ⟨data, hdata, hne⟩

/-- The process with a stale hash in its cache. -/
def staleShared : Shared :=
  { sampleShared with cache := sampleShared.cache.put (1, sampleHandle.u256) ⟨staleHash, 0⟩ }

theorem stale_performs : ∃ s, (shared 10).Performs staleShared staleRun s := by
  have hfind : staleShared.cache.find (1, sampleHandle.u256) = some ⟨staleHash, 0⟩ :=
    Lru.find_put_self _ _ _
  have hget : (some staleHash, { staleShared with
      admitPermits := 0, cache := staleShared.cache.touch (1, sampleHandle.u256) })
      = Shared.getFromCache 10 { staleShared with admitPermits := 0 } (1, sampleHandle.u256) := by
    simp only [Shared.getFromCache, Lru.get, hfind]
    rfl
  exact ⟨_, .step rfl (.step ⟨rfl, rfl⟩ (.step rfl (.step hget (.step rfl (.step rfl (.step rfl
    (.step rfl (.step rfl (.nil .refl)))))))))⟩

/-- There the refusal rests on a read that timed out. -/
theorem stale_never_refuses_sample : ∃ handle data,
    served (sampleState false) handle .v1 staleRun = some data
      ∧ MismatchShown (hits staleRun) (reads staleRun) (sampleCrates.keccak256 data) := by
  obtain ⟨s, hs⟩ := stale_performs
  obtain ⟨c, hc, -, -, ht⟩ := reachable_run stale_serve hs
  have hq : (sampleRequest 1).ask = some (sampleAsk 1) := rfl
  obtain ⟨handle, v, -, -, hshown, -⟩ := stale_never_refuses (sampleState false) rfl rfl staleShared
    hc ht rfl hq (by simp [staleRun])
  obtain ⟨data, hdata, hmis⟩ := hshown rfl
  exact ⟨handle, data, hdata, hmis⟩

end Teecryptor
