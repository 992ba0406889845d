import Teecryptor.Proofs.Cache

/-!
# Lookups of commitments, in any interleaving

Any number of `fetch_commitment` and `refresh_commitment` calls run at once over one cache, with
any answers of the registry: where every cached hash comes from, how old it can be, and what each
call leaves behind (`provenance`).
-/

namespace Teecryptor

open Interact Interact.Prog Rust

/-- A call for the commitment of a key: through the cache, or past it. -/
inductive Lookup
  | fetch (hostChainId : UInt64) (handle : U256)
  | refresh (hostChainId : UInt64) (handle : U256)

def Lookup.key : Lookup → CommitKey
  | .fetch hostChainId handle => (hostChainId, handle)
  | .refresh hostChainId handle => (hostChainId, handle)

abbrev Found := Except CommitmentError FetchedCommitment

/-- A refreshed hash is one that did not come from the cache. -/
def lookup (cfg : CommitmentConfig) : Lookup → Task Found
  | .fetch hostChainId handle => (fetchCommitment cfg handle hostChainId).run
  | .refresh hostChainId handle => do
    let hash ← (refreshCommitment cfg handle hostChainId).run
    return hash.map (⟨·, false⟩)

variable {cfg : CommitmentConfig} {l : Lookup} {tr : Trace sig}

/-! ## One lookup -/

/-- A finished lookup hit, or it read the registry, after a miss or at once. -/
theorem run_lookup {r : Found} (h : Run (lookup cfg l) tr r) :
    (∃ commit, r = .ok ⟨commit, true⟩ ∧ tr = [⟨.getFromCache l.key, some commit⟩])
      ∨ ∃ r' trR, r = r'.map (⟨·, false⟩)
        ∧ (tr = trR ∨ tr = ⟨.getFromCache l.key, none⟩ :: trR)
        ∧ Run (refreshCommitment cfg l.key.2 l.key.1).run trR r' := by
  rcases l with ⟨hostChainId, handle⟩ | ⟨hostChainId, handle⟩
  · rcases (run_fetchCommitment _ _ _).1 h with h | ⟨r', trR, hr, htr, h'⟩
    · exact .inl h
    · exact .inr ⟨r', trR, hr, .inr htr, h'⟩
  · rw [lookup, bind_eq, run_bind] at h
    obtain ⟨tr₁, tr₂, r', rfl, h₁, h₂⟩ := h
    obtain ⟨rfl, rfl⟩ := run_pure.1 h₂
    exact .inr ⟨r', tr₁, rfl, .inl (List.append_nil tr₁), h₁⟩

theorem steps_lookup {p : Task Found} (h : Steps (lookup cfg l) tr p) :
    (∃ commit, tr = [⟨.getFromCache l.key, some commit⟩])
      ∨ ∃ trR q, (tr = trR ∨ tr = ⟨.getFromCache l.key, none⟩ :: trR)
        ∧ Steps (refreshCommitment cfg l.key.2 l.key.1).run trR q := by
  rcases l with ⟨hostChainId, handle⟩ | ⟨hostChainId, handle⟩
  · rcases steps_attemptBind h with rfl | ⟨_ | commit, tr', rfl, h'⟩
    · exact .inr ⟨[], _, .inl rfl, .refl _⟩
    · obtain ⟨q, hq⟩ := steps_of_bind_pure (fun r => by rcases r <;> exact ⟨_, rfl⟩) h'
      exact .inr ⟨tr', q, .inr rfl, hq⟩
    · obtain rfl := steps_pure h'
      exact .inl ⟨commit, rfl⟩
  · obtain ⟨q, hq⟩ := steps_of_bind_pure (fun r => ⟨_, rfl⟩) h
    exact .inr ⟨tr, q, .inl rfl, hq⟩

/-- Besides its one read of the registry, a lookup missed the cache, stored the hash it was
answered, or evicted its key when there was none. -/
theorem lookup_events {p : Task Found} (h : Steps (lookup cfg l) tr p) {v hd : FixedBytes 32}
    {x : RpcResult (FixedBytes 32)} (hx : (⟨.getCommitment v hd, x⟩ : Event sig) ∈ tr) :
    ∀ ev ∈ tr, ev = ⟨.getFromCache l.key, none⟩ ∨ ev = answered cfg l.key.2 x
      ∨ (∃ commit : CommitHash, x = .ok commit.1 ∧ ev = ⟨.putInCache l.key commit, ()⟩)
      ∨ (x = .ok (.zero 32) ∧ ev = ⟨.evictFromCache l.key, ()⟩) := by
  intro ev hev
  rcases steps_lookup h with ⟨commit, rfl⟩ | ⟨trR, q, htr, hR⟩
  · simp at hx
  have hxR : (⟨.getCommitment v hd, x⟩ : Event sig) ∈ trR := by
    rcases htr with rfl | rfl
    · exact hx
    · simpa using hx
  have hevR : ev = ⟨.getFromCache l.key, none⟩ ∨ ev ∈ trR := by
    rcases htr with rfl | rfl
    · exact .inr hev
    · exact List.mem_cons.1 hev
  rcases hevR with hev | hev
  · exact .inl hev
  right
  rcases steps_refreshCommitment hR with rfl | ⟨y, rfl⟩ | ⟨commit, rfl⟩ | rfl
  · simp at hxR
  · obtain ⟨-, rfl⟩ : (v = cfg.version ∧ hd = toBeBytes l.key.2) ∧ x = y := by simpa using hxR
    exact .inl (List.mem_singleton.1 hev)
  · obtain ⟨-, rfl⟩ : (v = cfg.version ∧ hd = toBeBytes l.key.2) ∧ x = .ok commit.1 := by
      simpa using hxR
    rcases List.mem_cons.1 hev with hev | hev
    · exact .inl hev
    · exact .inr (.inl ⟨commit, rfl, List.mem_singleton.1 hev⟩)
  · obtain ⟨-, rfl⟩ : (v = cfg.version ∧ hd = toBeBytes l.key.2) ∧ x = .ok (.zero 32) := by
      simpa using hxR
    rcases List.mem_cons.1 hev with hev | hev
    · exact .inl hev
    · exact .inr (.inr ⟨rfl, List.mem_singleton.1 hev⟩)

theorem readsBack_lookup (l : Lookup) : Always (ReadsBack cfg.version) (lookup cfg l) := by
  have hM := mixes_readsBack cfg.version
  rcases l with ⟨hostChainId, handle⟩ | ⟨hostChainId, handle⟩
  · exact readsBack_fetchCommitment
  · exact hM.bind readsBack_refreshCommitment fun r => hM.pure _

/-- The event is a read of the registry. -/
def isRead : Event sig → Bool
  | ⟨.getCommitment _ _, _⟩ => true
  | _ => false

theorem lookup_hit {f : FetchedCommitment} (h : Run (lookup cfg l) tr (.ok f))
    (hf : f.fromCache = true) : tr = [⟨.getFromCache l.key, some f.hash⟩] := by
  rcases run_lookup h with ⟨commit, hr, rfl⟩ | ⟨_ | c, trR, hr, -, -⟩
  · cases hr
    rfl
  · cases hr
  · cases hr
    cases hf

theorem lookup_fresh {f : FetchedCommitment} (h : Run (lookup cfg l) tr (.ok f))
    (hf : f.fromCache = false) :
    tr.filter isRead = [answered cfg l.key.2 (.ok f.hash.1)] := by
  rcases run_lookup h with ⟨commit, hr, rfl⟩ | ⟨_ | c, trR, hr, htr, hR⟩
  · cases hr
    cases hf
  · cases hr
  cases hr
  have hread : trR.filter isRead = [answered cfg l.key.2 (.ok c.1)] := by
    rcases (run_refreshCommitment _ _ _).1 hR with ⟨c', hr, rfl⟩ | ⟨hr, -⟩ | ⟨hr, -⟩ | ⟨e, hr, -⟩
    · cases hr
      rfl
    · cases hr
    · cases hr
    · cases hr
  rcases htr with rfl | rfl
  · exact hread
  · exact hread

/-- A lookup that is answered zero ends with its key evicted. -/
theorem lookup_absent {r : Found} (h : Run (lookup cfg l) tr r) {v hd : FixedBytes 32}
    (hx : (⟨.getCommitment v hd, .ok (.zero 32)⟩ : Event sig) ∈ tr) :
    r = .error .notFound ∧ ⟨.evictFromCache l.key, ()⟩ ∈ tr := by
  rcases run_lookup h with ⟨commit, -, rfl⟩ | ⟨r', trR, rfl, htr, hR⟩
  · simp at hx
  have hxR : (⟨.getCommitment v hd, .ok (.zero 32)⟩ : Event sig) ∈ trR := by
    rcases htr with rfl | rfl
    · exact hx
    · simpa using hx
  have hevict : r' = .error .notFound ∧ ⟨.evictFromCache l.key, ()⟩ ∈ trR := by
    rcases (run_refreshCommitment _ _ _).1 hR with ⟨c, -, rfl⟩ | ⟨rfl, rfl⟩ | ⟨-, rfl⟩ | ⟨e, -, rfl⟩
    · obtain ⟨-, hc⟩ : (v = cfg.version ∧ hd = toBeBytes l.key.2) ∧ FixedBytes.zero 32 = c.1 := by
        simpa using hxR
      exact absurd hc.symm c.2
    · exact ⟨rfl, by simp⟩
    · simp at hxR
    · simp at hxR
  refine ⟨by rw [hevict.1]; rfl, ?_⟩
  rcases htr with rfl | rfl
  · exact hevict.2
  · exact List.mem_cons_of_mem _ hevict.2

/-! ## Every interleaving -/

/-- The registry answered `commit` for the key in a call for it. -/
def AnsweredFor (cfg : CommitmentConfig) (hist : List (Entry (shared cfg.cacheTtl) Lookup))
    (key : CommitKey) (commit : CommitHash) : Prop :=
  ∃ a ∈ hist, a.job.key = key ∧ a.event = answered cfg key.2 (.ok commit.1)

/-- From `s` to `s'` nothing cached changed, but that an entry of `key` past its lifetime can be
gone. -/
structure KeepsBut (ttl : ℕ) (key : CommitKey) (s s' : Shared) : Prop where
  others : ∀ k, k ≠ key → s'.cache.find k = s.cache.find k
  expired : s'.cache.find key = s.cache.find key ∨ s'.cache.find key = none
    ∧ ∀ entry, s.cache.find key = some entry → ttl ≤ s.now - entry.storedAt

/-- What holds of the cache and the lookups whatever the run that led here. -/
structure Provenance (cfg : CommitmentConfig) (c : Config (shared cfg.cacheTtl) Lookup Found) :
    Prop where
  /-- A cached hash is not zero, and the registry answered it to a call for its key. -/
  cached : ∀ k entry, c.state.cache.find k = some entry →
    entry.commit.1 ≠ .zero 32 ∧ AnsweredFor cfg c.hist k entry.commit
  /-- A hit returns a hash of that kind, stored less than the TTL before the lookup. -/
  hit : ∀ pid t f, c.threads pid = some t → t.rest = .pure (.ok f) → f.fromCache = true →
    ∃ h₁ e h₂, c.hist = h₁ ++ e :: h₂ ∧ e.pid = pid
      ∧ e.event = ⟨.getFromCache t.job.key, some f.hash⟩
      ∧ AnsweredFor cfg h₁ t.job.key f.hash
      ∧ ∃ p ∈ h₁, p.event = ⟨.putInCache t.job.key f.hash, ()⟩
        ∧ e.pre.cache.find t.job.key = some ⟨f.hash, p.pre.now⟩
        ∧ p.pre.now ≤ e.pre.now ∧ e.pre.now < p.pre.now + cfg.cacheTtl
  /-- A hit changes no entry, nor the time one was stored at. -/
  hit_keeps : ∀ e ∈ c.hist, ∀ k commit, e.event = ⟨.getFromCache k, some commit⟩ →
    ∀ k', e.post.cache.find k' = e.pre.cache.find k'
  /-- A hash that is not from the cache is the answer to the one read the lookup made. -/
  fresh : ∀ pid t f, c.threads pid = some t → t.rest = .pure (.ok f) → f.fromCache = false →
    t.trace.filter isRead = [answered cfg t.job.key.2 (.ok f.hash.1)]
  /-- A lookup answered zero creates no entry, and when it returns it has removed its key's. -/
  absent : ∀ a ∈ c.hist, ∀ v hd, a.event = ⟨.getCommitment v hd, .ok (.zero 32)⟩ →
    (∀ e ∈ c.hist, e.pid = a.pid → ∀ k entry, e.post.cache.find k = some entry →
      e.pre.cache.find k = some entry)
    ∧ ∀ t r, c.threads a.pid = some t → t.rest = .pure r → r = .error .notFound
      ∧ ∃ e ∈ c.hist, e.pid = a.pid ∧ e.event = ⟨.evictFromCache a.job.key, ()⟩
        ∧ e.post.cache.find a.job.key = none
  /-- A lookup whose read times out or fails only drops an expired entry of its key. -/
  failed : ∀ a ∈ c.hist, ∀ v hd x, a.event = ⟨.getCommitment v hd, x⟩ → (∀ b, x ≠ .ok b) →
    ∀ e ∈ c.hist, e.pid = a.pid → KeepsBut cfg.cacheTtl a.job.key e.pre e.post

section Runs

variable {s₀ : Shared} {c : Config (shared cfg.cacheTtl) Lookup Found}
  {a e : Entry (shared cfg.cacheTtl) Lookup}

theorem answeredFor_of_find (h₀ : s₀.cache.entries = []) (hc : Reachable (lookup cfg) s₀ c)
    {k : CommitKey} {entry : CacheEntry} (hf : c.state.cache.find k = some entry) :
    AnsweredFor cfg c.hist k entry.commit := by
  obtain ⟨e, he, hput, -, -, a, ha, hpid, -, hread⟩ := cached_read readsBack_lookup h₀ hc hf
  refine ⟨a, ha, ?_, hread⟩
  -- the call that stored the hash stored it for its own key
  obtain ⟨p', hs⟩ := hc.steps_of_mem ha
  have hreads := mem_eventsOf.2 ⟨a, ha, rfl, hread⟩
  have hputs := mem_eventsOf.2 ⟨e, he, hpid.symm, hput⟩
  rcases lookup_events hs hreads _ hputs with h | h | ⟨commit, -, h⟩ | ⟨-, h⟩
  · cases h
  · cases h
  · cases h
    rfl
  · cases h

/-- What the lookup an entry is of was answered says what each of its entries can be. -/
theorem entry_cases (hc : Reachable (lookup cfg) s₀ c) (ha : a ∈ c.hist) {v hd : FixedBytes 32}
    {x : RpcResult (FixedBytes 32)} (hx : a.event = ⟨.getCommitment v hd, x⟩) (he : e ∈ c.hist)
    (hpid : e.pid = a.pid) :
    e.event = ⟨.getFromCache a.job.key, none⟩ ∨ e.event = answered cfg a.job.key.2 x
      ∨ (∃ commit : CommitHash, x = .ok commit.1 ∧ e.event = ⟨.putInCache a.job.key commit, ()⟩)
      ∨ (x = .ok (.zero 32) ∧ e.event = ⟨.evictFromCache a.job.key, ()⟩) := by
  obtain ⟨p', hs⟩ := hc.steps_of_mem ha
  exact lookup_events hs (mem_eventsOf.2 ⟨a, ha, rfl, hx⟩) _ (mem_eventsOf.2 ⟨e, he, hpid, rfl⟩)

theorem hit_found (h₀ : s₀.cache.entries = []) (hc : Reachable (lookup cfg) s₀ c) {pid : ℕ}
    {t : Thread sig Lookup Found} {f : FetchedCommitment} (ht : c.threads pid = some t)
    (hr : t.rest = .pure (.ok f)) (hf : f.fromCache = true) :
    ∃ h₁ e h₂, c.hist = h₁ ++ e :: h₂ ∧ e.pid = pid
      ∧ e.event = ⟨.getFromCache t.job.key, some f.hash⟩
      ∧ AnsweredFor cfg h₁ t.job.key f.hash
      ∧ ∃ p ∈ h₁, p.event = ⟨.putInCache t.job.key f.hash, ()⟩
        ∧ e.pre.cache.find t.job.key = some ⟨f.hash, p.pre.now⟩
        ∧ p.pre.now ≤ e.pre.now ∧ e.pre.now < p.pre.now + cfg.cacheTtl := by
  have htr := lookup_hit (hc.run ht hr) hf
  have hmem : ⟨.getFromCache t.job.key, some f.hash⟩ ∈ t.trace := by
    rw [htr]
    exact List.mem_cons_self ..
  obtain ⟨e, he, hpid, hev, hperf⟩ := hc.performs_trace ht hmem
  obtain ⟨h₁, h₂, hsplit⟩ := List.append_of_mem he
  obtain ⟨⟨commit, storedAt⟩, hfind, rfl, hlt, -⟩ := getFromCache_hit hperf
  -- the configuration the lookup was made in
  obtain ⟨c₁, hc₁, rfl, hstate, -⟩ := hc.before hsplit
  rw [← hstate] at hfind hlt
  obtain ⟨p, hp, hput, hnow, hle, -⟩ := cached_read readsBack_lookup h₀ hc₁ hfind
  refine ⟨_, e, h₂, hsplit, hpid, hev, answeredFor_of_find h₀ hc₁ hfind, p, hp, hput, ?_⟩
  rw [← hstate, hnow]
  refine ⟨hfind, hle, ?_⟩
  simp only at hle hlt ⊢
  omega

theorem absent_removed (hc : Reachable (lookup cfg) s₀ c) (ha : a ∈ c.hist)
    {v hd : FixedBytes 32} (hx : a.event = ⟨.getCommitment v hd, .ok (.zero 32)⟩) :
    (∀ e ∈ c.hist, e.pid = a.pid → ∀ k entry, e.post.cache.find k = some entry →
      e.pre.cache.find k = some entry)
    ∧ ∀ t r, c.threads a.pid = some t → t.rest = .pure r → r = .error .notFound
      ∧ ∃ e ∈ c.hist, e.pid = a.pid ∧ e.event = ⟨.evictFromCache a.job.key, ()⟩
        ∧ e.post.cache.find a.job.key = none := by
  constructor
  · intro e he hpid k entry hf
    refine (perform_find (hc.performs e he) hf).resolve_right fun hput => ?_
    rcases entry_cases hc ha hx he hpid with h | h | ⟨commit, hz, -⟩ | ⟨-, h⟩
    · cases hput.1.symm.trans h
    · cases hput.1.symm.trans h
    · exact commit.2 (RpcResult.ok.inj hz).symm
    · cases hput.1.symm.trans h
  · intro t r ht hr
    have hread : ⟨.getCommitment v hd, .ok (.zero 32)⟩ ∈ t.trace :=
      (hc.mem_trace ht).2 ⟨a, ha, rfl, hx⟩
    obtain ⟨rfl, hevict⟩ := lookup_absent (hc.run ht hr) hread
    rw [← (hc.poolOk.thread a.pid t ht).job a ha rfl] at hevict
    obtain ⟨e, he, hpid, hev, hperf⟩ := hc.performs_trace ht hevict
    have hpost : e.post = e.pre.evictFromCache a.job.key := hperf
    refine ⟨rfl, e, he, hpid, hev, ?_⟩
    rw [hpost]
    exact Lru.find_pop_self _ _

theorem failed_keeps (hc : Reachable (lookup cfg) s₀ c) (ha : a ∈ c.hist) {v hd : FixedBytes 32}
    {x : RpcResult (FixedBytes 32)} (hx : a.event = ⟨.getCommitment v hd, x⟩)
    (hfail : ∀ b, x ≠ .ok b) (he : e ∈ c.hist) (hpid : e.pid = a.pid) :
    KeepsBut cfg.cacheTtl a.job.key e.pre e.post := by
  have hperf := hc.performs e he
  rcases entry_cases hc ha hx he hpid with h | h | ⟨commit, hok, -⟩ | ⟨hok, -⟩
  · rw [h] at hperf
    obtain ⟨hne, hnone, hold⟩ := getFromCache_miss hperf
    exact ⟨hne, .inr ⟨hnone, hold⟩⟩
  · rw [h] at hperf
    have hpost : e.post = e.pre := hperf
    rw [hpost]
    exact ⟨fun k _ => rfl, .inl rfl⟩
  · exact absurd hok (hfail _)
  · exact absurd hok (hfail _)

/-- Over any run of lookups from an empty cache, every cached hash is one the registry answered for
its key, a hit is younger than the TTL and extends no lifetime, a read returns what it was answered,
and only an answer changes what is cached. -/
theorem provenance (cfg : CommitmentConfig) (s₀ : Shared) (h₀ : s₀.cache.entries = [])
    (c : Config (shared cfg.cacheTtl) Lookup Found) (hc : Reachable (lookup cfg) s₀ c) :
    Provenance cfg c where
  cached := fun k entry hf => ⟨entry.commit.2, answeredFor_of_find h₀ hc hf⟩
  hit := fun pid t f ht hr hf => hit_found h₀ hc ht hr hf
  hit_keeps := by
    intro e he k commit hev
    have hperf := hc.performs e he
    rw [hev] at hperf
    obtain ⟨-, -, -, -, hsame⟩ := getFromCache_hit hperf
    exact hsame
  fresh := fun pid t f ht hr hf => lookup_fresh (hc.run ht hr) hf
  absent := fun a ha v hd hx => absent_removed hc ha hx
  failed := fun a ha v hd x hx hfail e he hpid => failed_keeps hc ha hx hfail he hpid

end Runs

def sampleConfig : CommitmentConfig := ⟨.zero 20, .zero 32, 1, false, 10⟩

def sampleLookup : Trace sig :=
  [⟨.getFromCache (1, 0), none⟩, answered sampleConfig 0 (.ok sampleHash.1),
    ⟨.putInCache (1, 0) sampleHash, ()⟩]

theorem sample_lookup :
    Run (fetchCommitment sampleConfig 0 1).run sampleLookup (.ok ⟨sampleHash, false⟩) :=
  (run_fetchCommitment _ _ _).2 (.inr ⟨.ok sampleHash, _, rfl, rfl,
    (run_refreshCommitment _ _ _).2 (.inl ⟨sampleHash, rfl, rfl⟩)⟩)

theorem sample_lookup_performs (ttl : ℕ) : (shared ttl).Performs sampleShared sampleLookup
    (sampleShared.putInCache (1, 0) sampleHash) :=
  .step rfl (.step rfl (.step rfl (.nil .refl)))

theorem provenance_sample : ∃ (c : Config (shared 10) Lookup Found) (entry : CacheEntry),
    Reachable (lookup sampleConfig) sampleShared c ∧ c.state.cache.find (1, 0) = some entry
      ∧ AnsweredFor sampleConfig c.hist (1, 0) entry.commit := by
  have hrun : Run (lookup sampleConfig (.fetch 1 0)) sampleLookup (.ok ⟨sampleHash, false⟩) :=
    sample_lookup
  obtain ⟨c, hc, hs, -, -⟩ := reachable_run hrun (sample_lookup_performs 10)
  have hf : c.state.cache.find (1, 0) = some ⟨sampleHash, 0⟩ := by
    rw [hs]
    exact Lru.find_put_self _ _ _
  exact ⟨c, _, hc, hf, ((provenance sampleConfig sampleShared rfl c hc).cached _ _ hf).2⟩

end Teecryptor
