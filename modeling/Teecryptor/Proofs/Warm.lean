import Teecryptor.Proofs.Cache

/-!
# Warm commitments under other traffic

Requests look up commitments while the ACL decides on them, under a key the caller chooses the
chain of. What is cached and still in its lifetime survives any traffic that finds room for what it
stores (`warm_kept`); a full cache loses it to a request that the ACL refuses.
-/

namespace Teecryptor

open Interact Interact.Prog Rust

variable {st : AppState} {cfg : CommitmentConfig}

theorem readsBack_serve (hv : st.commitmentVerifier = some cfg) (req : Request) :
    Always (ReadsBack cfg.version) (serve st req) := by
  have hM := mixes_readsBack cfg.version
  refine always_serve hM (fun tr h => readsBack_of_only (by decide) h) (fun handle _ _ _ => ?_) req
  refine always_fetchDecrypt hM (fun p tr _ hp h => readsBack_of_only hp h) ?_ fun f data => ?_
  · refine always_commitmentGate hM (readsBack_log _) fun cfg' hv' => ?_
    obtain rfl : cfg = cfg' := Option.some.inj (hv.symm.trans hv')
    exact readsBack_fetchCommitment
  · refine always_integrityGate hM (readsBack_log _) (fun cfg' hv' => ?_) f data
    obtain rfl : cfg = cfg' := Option.some.inj (hv.symm.trans hv')
    exact readsBack_refreshCommitment

/-- If the entry stores a commitment it finds room for it: the key is cached already, the cache is
not full, or the least recently used entry is past its lifetime. -/
def FindsRoom {ttl : ℕ} (e : Entry (shared ttl) Request) : Prop :=
  ∀ k commit, e.event = ⟨.putInCache k commit, ()⟩ →
    ∀ d, e.pre.cache.dropped k = some d → ttl ≤ e.pre.now - d.2.storedAt

section Kept

variable {ttl : ℕ} {key : CommitKey} {w : CacheEntry}

/-- The cache holds the commitment of `w`, stored when `w` was or later. -/
def Holds (key : CommitKey) (w : CacheEntry) (s : Shared) : Prop :=
  ∃ w', s.cache.find key = some w' ∧ w'.commit = w.commit ∧ w.storedAt ≤ w'.storedAt

/-- The operation, within the lifetime of `w`, keeps its commitment, if it stores no other for the
key, does not evict it, and finds room. -/
theorem perform_holds {e : Entry (shared ttl) Request}
    (hp : e.pre.perform ttl e.event.1 e.event.2 e.post) (hlive : e.pre.now - w.storedAt < ttl)
    (hpast : w.storedAt ≤ e.pre.now)
    (hput : ∀ commit, e.event = ⟨.putInCache key commit, ()⟩ → commit = w.commit)
    (hevict : e.event ≠ ⟨.evictFromCache key, ()⟩) (hroom : FindsRoom e)
    (hw : Holds key w e.pre) : Holds key w e.post := by
  obtain ⟨w', hf, hc, hle⟩ := hw
  have hkeep : e.post.cache.find key = e.pre.cache.find key → Holds key w e.post :=
    fun h => ⟨w', h ▸ hf, hc, hle⟩
  by_cases ho : touchesCache e.event.1 = false
  · exact hkeep (by rw [(perform_frame hp).2.1 ho])
  obtain ⟨pid, job, ⟨o, x⟩, s, s'⟩ := e
  simp only at *
  cases o with
  | getFromCache k =>
    rcases x with _ | commit
    · obtain ⟨hne, -, hold⟩ := getFromCache_miss hp
      refine hkeep (hne key fun hk => ?_)
      subst hk
      have := hold w' hf
      omega
    · obtain ⟨-, -, -, -, hsame⟩ := getFromCache_hit hp
      exact hkeep (hsame key)
  | putInCache k commit =>
    obtain rfl : s' = s.putInCache k commit := hp
    by_cases hk : key = k
    · subst hk
      exact ⟨_, Lru.find_put_self _ _ _, hput commit rfl, hpast⟩
    · refine hkeep (Lru.find_put_of_ne_dropped hk (fun d hd hdk => ?_) _)
      have hexp := hroom k commit rfl d hd
      have hfd := (Lru.find_dropped hd).1
      rw [hdk, hf] at hfd
      cases hfd
      simp only at hexp
      omega
  | evictFromCache k =>
    obtain rfl : s' = s.evictFromCache k := hp
    refine hkeep (Lru.find_pop_of_ne _ fun hk => ?_)
    subst hk
    exact hevict rfl
  | _ => exact absurd rfl ho

end Kept

/-- In every run, a commitment cached at the start is still cached at the end, if it is within its
lifetime then, the registry answered no other for its handle, and every request that stored one
found room for it. A request that finds none costs an entry within its lifetime. -/
theorem warm_kept (st : AppState) {cfg : CommitmentConfig}
    (hv : st.commitmentVerifier = some cfg) (s₀ : Shared)
    (c : Config (shared cfg.cacheTtl) Request Response) (hc : Reachable (serve st) s₀ c) :
    ((∀ e ∈ c.hist, FindsRoom e) → ∀ key w, s₀.cache.find key = some w → w.storedAt ≤ s₀.now →
      c.state.now - w.storedAt < cfg.cacheTtl →
      (∀ e ∈ c.hist, ∀ b, e.event = answered cfg key.2 (.ok b) → b = w.commit.1) →
      ∃ w', c.state.cache.find key = some w' ∧ w'.commit = w.commit)
    ∧ ∀ e ∈ c.hist, ¬ FindsRoom e → ∃ key w, e.pre.cache.find key = some w
      ∧ e.pre.now - w.storedAt < cfg.cacheTtl ∧ e.post.cache.find key = none := by
  constructor
  · intro hroom key w hf hpast hlive hreg
    -- along the run, as far as its end is still within the lifetime
    have hkept : (∀ e ∈ c.hist, e ∈ c.hist) → c.state.now ≤ c.state.now →
        w.storedAt ≤ c.state.now ∧ Holds key w c.state := by
      refine hc.invariant (I := fun s hist => (∀ e ∈ hist, e ∈ c.hist) → s.now ≤ c.state.now →
        w.storedAt ≤ s.now ∧ Holds key w s) ?_ ?_ ?_ fun s hist tr ih => ih
      · exact fun _ _ => ⟨hpast, w, hf, rfl, le_rfl⟩
      · intro hist e ih hp hmem hnow
        have he : e ∈ c.hist := hmem e (by simp)
        have hsame : e.post.now = e.pre.now := (perform_frame hp).1
        obtain ⟨hle, hw⟩ := ih (fun e' he' => hmem e' (by simp [he'])) (hsame ▸ hnow)
        have hback : ReadsBack cfg.version (c.eventsOf e.pid) :=
          hc.always (mixes_readsBack _).nil (readsBack_serve hv) e.pid
        have hanswer : ∀ b, answered cfg key.2 (.ok b) ∈ c.eventsOf e.pid → b = w.commit.1 := by
          intro b hb
          obtain ⟨a, ha, -, hev⟩ := mem_eventsOf.1 hb
          exact hreg a ha b hev
        refine ⟨hsame ▸ hle, perform_holds hp (by omega) hle ?_ ?_ (hroom e he) hw⟩
        · intro commit hev
          exact Subtype.ext (hanswer _ (hback.put key commit (mem_eventsOf.2 ⟨e, he, rfl, hev⟩)))
        · intro hev
          exact w.commit.2 (hanswer _ (hback.evict key (mem_eventsOf.2 ⟨e, he, rfl, hev⟩))).symm
      · rintro s s' hist ih (⟨now, hle⟩ | ⟨task, -⟩) hmem hnow
        · obtain ⟨hpast', hw⟩ := ih hmem (hle.trans hnow)
          exact ⟨hpast'.trans hle, hw⟩
        · exact ih hmem hnow
    obtain ⟨-, w', hf', hc', -⟩ := hkept (fun e he => he) le_rfl
    exact ⟨w', hf', hc'⟩
  · intro e he hno
    simp only [FindsRoom, not_forall, not_le] at hno
    obtain ⟨k, commit, hev, d, hd, hlt⟩ := hno
    have hp := hc.performs e he
    rw [hev] at hp
    have hpost : e.post = e.pre.putInCache k commit := hp
    obtain ⟨hfound, hgone⟩ := Lru.find_dropped hd
    refine ⟨d.1, d.2, hfound, hlt, ?_⟩
    rw [hpost]
    exact hgone _

/-- The sample deployment with room for one commitment, the one of its handle on chain 1. -/
def warmShared : Shared :=
  { sampleShared with cache := sampleShared.cache.put (1, sampleHandle.u256) ⟨sampleHash, 0⟩ }

theorem find_warmShared :
    warmShared.cache.find (1, sampleHandle.u256) = some ⟨sampleHash, 0⟩ := Lru.find_put_self _ _ _

/-- The sample deployment with that commitment, and room for one more. -/
def roomyShared : Shared :=
  { sampleShared with
    cache := (Lru.empty 2 (by decide)).put (1, sampleHandle.u256) ⟨sampleHash, 0⟩ }

/-- A cache gets longer only by a store. -/
theorem perform_length {e : Event sig} {s s' : Shared} {ttl : ℕ} (hp : s.perform ttl e.1 e.2 s')
    (hput : ∀ k commit, e ≠ ⟨.putInCache k commit, ()⟩) :
    s'.cache.cap = s.cache.cap ∧ s'.cache.entries.length ≤ s.cache.entries.length := by
  have hpop : ∀ (c : Lru CommitKey CacheEntry) k, (c.pop k).entries.length ≤ c.entries.length :=
    fun c k => (Lru.without_sublist k _).length_le
  by_cases ho : touchesCache e.1 = false
  · rw [(perform_frame hp).2.1 ho]
    exact ⟨rfl, le_rfl⟩
  obtain ⟨o, x⟩ := e
  cases o with
  | getFromCache k =>
    obtain rfl : s' = (s.getFromCache ttl k).2 := congrArg Prod.snd hp
    have htouch := Lru.length_touch s.cache k
    unfold Shared.getFromCache
    rcases hf : s.cache.find k with _ | entry
    · simp only [Lru.get, hf]
      exact ⟨rfl, htouch.le⟩
    · simp only [Lru.get, hf]
      split
      · exact ⟨rfl, htouch.le⟩
      · exact ⟨rfl, (hpop _ _).trans htouch.le⟩
  | evictFromCache k =>
    obtain rfl : s' = s.evictFromCache k := hp
    exact ⟨rfl, hpop _ _⟩
  | putInCache k commit => exact absurd rfl (hput k commit)
  | _ => exact absurd rfl ho

/-- A request refused for its chain stores a commitment beside the warm one. -/
theorem warm_kept_denied : ∃ (c : Config (shared 10) Request Response)
    (t : Thread sig Request Response) (w' : CacheEntry),
    Reachable (serve (sampleState false)) roomyShared c ∧ c.threads 0 = some t
      ∧ t.rest = .pure (acpResponse .v1 false (.unknownChain 2))
      ∧ c.hist.map Entry.event = sampleRefused
      ∧ c.state.cache.find (2, sampleHandle.u256) = some ⟨sampleHash, 0⟩
      ∧ c.state.cache.find (1, sampleHandle.u256) = some w' ∧ w'.commit = sampleHash := by
  have hperf : ∃ s, (shared 10).Performs roomyShared sampleRefused s ∧ s.now = 0
      ∧ s.cache.find (2, sampleHandle.u256) = some ⟨sampleHash, 0⟩ :=
    ⟨_, .step rfl (.step ⟨rfl, rfl⟩ (.step rfl (.step rfl (.step rfl (.step rfl (.nil .refl)))))),
      rfl, Lru.find_put_self _ _ _⟩
  obtain ⟨s, hs, hnow, hstored⟩ := hperf
  obtain ⟨c, hc, hstate, hhist, ht⟩ := reachable_run (sample_refused false) hs
  have hmem : ∀ e ∈ c.hist, e.event ∈ sampleRefused := fun e he => by
    rw [← hhist]
    exact List.mem_map_of_mem he
  have hput : ∀ e ∈ c.hist, ∀ k commit, e.event = ⟨.putInCache k commit, ()⟩ →
      e.event = ⟨.putInCache (2, sampleHandle.u256) sampleHash, ()⟩ := by
    intro e he k commit hev
    have := hmem e he
    simp only [hev, sampleRefused, List.mem_cons, Sigma.mk.injEq, reduceCtorEq, false_and, false_or,
      List.not_mem_nil, or_false] at this
    obtain ⟨rfl, rfl⟩ := Op.putInCache.inj this.1
    exact hev
  have hnodup : (c.hist.map Entry.event).Nodup := by
    rw [hhist]
    simp [sampleRefused]
  have hroom : ∀ e ∈ c.hist, FindsRoom e := by
    intro e he k commit hev d hd
    obtain ⟨h₁, h₂, hsplit⟩ := List.append_of_mem he
    obtain ⟨c₁, hc₁, rfl, hpre, -⟩ := hc.before hsplit
    -- it is the only store, so there is one entry before it
    have hfirst : ∀ e ∈ c₁.hist, ∀ k commit, e.event ≠ ⟨.putInCache k commit, ()⟩ := by
      intro e₁ he₁ k₁ commit₁ hev₁
      have hsame := (hput e₁ (by simp [hsplit, he₁]) _ _ hev₁).trans (hput e he _ _ hev).symm
      rw [hsplit, List.map_append, List.map_cons, List.nodup_middle, List.nodup_cons] at hnodup
      exact hnodup.1 (List.mem_append_left _ (hsame ▸ List.mem_map_of_mem he₁))
    have hsize : (∀ e ∈ c₁.hist, ∀ k commit, e.event ≠ ⟨.putInCache k commit, ()⟩) →
        c₁.state.cache.cap = 2 ∧ c₁.state.cache.entries.length ≤ 1 := by
      refine hc₁.invariant (I := fun (s : Shared) hist =>
        (∀ e ∈ hist, ∀ k commit, e.event ≠ ⟨Op.putInCache k commit, ()⟩) →
          s.cache.cap = 2 ∧ s.cache.entries.length ≤ 1) ?_ ?_ ?_ fun s hist tr ih => ih
      · exact fun _ => ⟨rfl, by decide⟩
      · intro hist e ih hp hput
        obtain ⟨hcap, hlen⟩ := perform_length hp (hput e (by simp))
        obtain ⟨hcap', hlen'⟩ := ih fun e' he' => hput e' (by simp [he'])
        exact ⟨hcap.trans hcap', hlen.trans hlen'⟩
      · rintro s s' hist ih (⟨now, hle⟩ | ⟨task, -⟩) hput
        · exact ih hput
        · exact ih hput
    obtain ⟨hcap, hlen⟩ := hsize hfirst
    rw [hpre] at hcap hlen
    have hhas : e.pre.cache.HasRoom k := .inr (by omega)
    rw [Lru.dropped, if_pos hhas] at hd
    cases hd
  have hreg : ∀ e ∈ c.hist, ∀ b,
      e.event = ⟨.getCommitment (.zero 32) (toBeBytes sampleHandle.u256), .ok b⟩ →
        b = sampleHash.1 := by
    intro e he b hev
    have := hmem e he
    simp only [hev, sampleRefused, List.mem_cons, Sigma.mk.injEq, reduceCtorEq, false_and, false_or,
      List.not_mem_nil, or_false, true_and] at this
    exact RpcResult.ok.inj (eq_of_heq this)
  obtain ⟨w', hf, hw⟩ := (warm_kept (sampleState false) rfl roomyShared c hc).1 hroom
    (1, sampleHandle.u256) ⟨sampleHash, 0⟩ (Lru.find_put_self _ _ _) le_rfl
    (by rw [hstate, hnow]; decide) hreg
  exact ⟨c, _, w', hc, ht, rfl, hhist, by rw [hstate, hstored], hf, hw⟩

/-- One request that the ACL gate rejects, on a chain that is not configured, evicts the commitment
cached for chain 1, within its lifetime and with the registry unchanged. -/
theorem warm_evicted : ∃ (c : Config (shared 10) Request Response)
    (t : Thread sig Request Response), Reachable (serve (sampleState false)) warmShared c
      ∧ c.threads 0 = some t ∧ t.rest = .pure (acpResponse .v1 false (.unknownChain 2))
      ∧ c.hist.map Entry.event = sampleRefused
      ∧ warmShared.cache.find (1, sampleHandle.u256) = some ⟨sampleHash, 0⟩ ∧ c.state.now < 10
      ∧ (∀ e ∈ c.hist, ∀ b,
        e.event = ⟨.getCommitment (.zero 32) (toBeBytes sampleHandle.u256), .ok b⟩ →
          b = sampleHash.1)
      ∧ c.state.cache.find (1, sampleHandle.u256) = none := by
  have hperf : ∃ s, (shared 10).Performs warmShared sampleRefused s ∧ s.now = 0
      ∧ s.cache.find (1, sampleHandle.u256) = none :=
    ⟨_, .step rfl (.step ⟨rfl, rfl⟩ (.step rfl (.step rfl (.step rfl (.step rfl (.nil .refl)))))),
      rfl, rfl⟩
  obtain ⟨s, hs, hnow, hnone⟩ := hperf
  obtain ⟨c, hc, hstate, hhist, ht⟩ := reachable_run (sample_refused false) hs
  refine ⟨c, _, hc, ht, rfl, hhist, find_warmShared, by rw [hstate, hnow]; decide, ?_,
    by rw [hstate, hnone]⟩
  intro e he b hev
  have hmem : e.event ∈ sampleRefused := by
    rw [← hhist]
    exact List.mem_map_of_mem he
  rw [hev] at hmem
  simp only [sampleRefused, List.mem_cons, Sigma.mk.injEq, reduceCtorEq, false_and, false_or,
    List.not_mem_nil, or_false, true_and] at hmem
  exact RpcResult.ok.inj (eq_of_heq hmem)

end Teecryptor
