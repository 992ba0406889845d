import Teecryptor.Proofs.TwoRuns

/-!
# The commitment cache over whole runs

What each operation does to what can be found in the cache, and what every entry goes back to in
every interleaving: it was stored by some request, which had just been answered its hash by the
registry (`cached_read`).
-/

namespace Teecryptor

open Interact Interact.Prog Rust

variable {ttl : ℕ} {s s' : Shared} {key : CommitKey}

/-! ## One operation -/

/-- A hit gives an entry within its lifetime and changes nothing that can be found. -/
theorem getFromCache_hit {commit : CommitHash}
    (h : (some commit, s') = s.getFromCache ttl key) :
    ∃ entry, s.cache.find key = some entry ∧ entry.commit = commit
      ∧ s.now - entry.storedAt < ttl ∧ ∀ k, s'.cache.find k = s.cache.find k := by
  unfold Shared.getFromCache at h
  rcases hf : s.cache.find key with _ | entry
  · simp [Lru.get, hf] at h
  · simp only [Lru.get, hf] at h
    split_ifs at h with hlt
    · simp only [Prod.mk.injEq, Option.some.injEq] at h
      obtain ⟨rfl, rfl⟩ := h
      exact ⟨entry, rfl, rfl, hlt, fun k => Lru.find_touch _ _ _⟩
    · simp at h

/-- A miss changes what can be found of the key alone, and only drops an entry past its
lifetime. -/
theorem getFromCache_miss (h : (none, s') = s.getFromCache ttl key) :
    (∀ k, k ≠ key → s'.cache.find k = s.cache.find k) ∧ s'.cache.find key = none
      ∧ ∀ entry, s.cache.find key = some entry → ttl ≤ s.now - entry.storedAt := by
  unfold Shared.getFromCache at h
  rcases hf : s.cache.find key with _ | entry
  · simp only [Lru.get, hf, Prod.mk.injEq, true_and] at h
    subst h
    simp [hf]
  · simp only [Lru.get, hf] at h
    split_ifs at h with hlt
    · simp at h
    · simp only [Prod.mk.injEq, true_and] at h
      subst h
      refine ⟨fun k hk => ?_, Lru.find_pop_self _ _, ?_⟩
      · rw [Lru.find_pop_of_ne _ hk, Lru.find_touch]
      · rintro _ ⟨⟩
        omega

/-- What the cache holds after an operation it held before it, or the operation stored it then. -/
theorem perform_find {e : Event sig} (h : s.perform ttl e.1 e.2 s') {k : CommitKey}
    {entry : CacheEntry} (hf : s'.cache.find k = some entry) :
    s.cache.find k = some entry
      ∨ e = ⟨.putInCache k entry.commit, ()⟩ ∧ entry.storedAt = s.now := by
  by_cases ho : touchesCache e.1 = false
  · rw [(perform_frame h).2.1 ho] at hf
    exact .inl hf
  obtain ⟨o, x⟩ := e
  cases o with
  | getFromCache key =>
    rcases x with _ | commit
    · obtain ⟨hne, hself, -⟩ := getFromCache_miss h
      by_cases hk : k = key
      · subst hk
        rw [hself] at hf
        cases hf
      · exact .inl (hne k hk ▸ hf)
    · obtain ⟨-, -, -, -, hsame⟩ := getFromCache_hit h
      exact .inl (hsame k ▸ hf)
  | putInCache key commit =>
    obtain rfl : s' = s.putInCache key commit := h
    by_cases hk : k = key
    · subst hk
      simp only [Shared.putInCache, Lru.find_put_self, Option.some.injEq] at hf
      subst hf
      exact .inr ⟨rfl, rfl⟩
    · exact .inl (Lru.find_of_find_put hk hf)
  | evictFromCache key =>
    obtain rfl : s' = s.evictFromCache key := h
    by_cases hk : k = key
    · subst hk
      simp [Shared.evictFromCache] at hf
    · simp only [Shared.evictFromCache, Lru.find_pop_of_ne _ hk] at hf
      exact .inl hf
  | _ => exact absurd rfl ho

/-! ## Whole runs -/

section Runs

variable {ι R : Type} {prog : ι → Task R} {s₀ : Shared} {c : Config (shared ttl) ι R}

/-- Every entry was stored by an operation of the run, at the time it carries; and no operation
was after now. -/
structure Stamped (s : Shared) (hist : List (Entry (shared ttl) ι)) : Prop where
  stored : ∀ k entry, s.cache.find k = some entry →
    ∃ e ∈ hist, e.event = ⟨.putInCache k entry.commit, ()⟩ ∧ e.pre.now = entry.storedAt
  past : ∀ e ∈ hist, e.pre.now ≤ s.now

theorem stamped (h₀ : s₀.cache.entries = []) (hc : Reachable prog s₀ c) :
    Stamped c.state c.hist := by
  refine hc.invariant ?_ ?_ ?_ fun s hist tr ih => ⟨ih.stored, ih.past⟩
  · refine ⟨fun k entry hf => ?_, by simp⟩
    rw [Lru.find_of_nil h₀] at hf
    cases hf
  · intro hist e ih hp
    refine ⟨fun k entry hf => ?_, fun e' he' => ?_⟩
    · rcases perform_find hp hf with hf | ⟨he, hnow⟩
      · obtain ⟨e', he', hev⟩ := ih.stored k entry hf
        exact ⟨e', List.mem_append_left _ he', hev⟩
      · exact ⟨e, List.mem_append_right _ (List.mem_singleton_self e), he, hnow.symm⟩
    · rw [(perform_frame hp).1]
      rcases List.mem_append.1 he' with he' | he'
      · exact ih.past e' he'
      · rw [List.mem_singleton.1 he']
  · rintro s s' hist ih (⟨now, hle⟩ | ⟨task, -⟩)
    · exact ⟨ih.stored, fun e he => (ih.past e he).trans hle⟩
    · exact ⟨ih.stored, ih.past⟩

end Runs

/-! ## What a request does to the cache, it was answered -/

/-- Every hash stored in `tr` was answered for its handle in `tr`, and every key evicted had no
commitment. -/
structure ReadsBack (version : FixedBytes 32) (tr : Trace sig) : Prop where
  put : ∀ k commit, ⟨.putInCache k commit, ()⟩ ∈ tr →
    (⟨.getCommitment version (toBeBytes k.2), .ok commit.1⟩ : Event sig) ∈ tr
  evict : ∀ k, ⟨.evictFromCache k, ()⟩ ∈ tr →
    (⟨.getCommitment version (toBeBytes k.2), .ok (.zero 32)⟩ : Event sig) ∈ tr

theorem mixes_readsBack (version : FixedBytes 32) : Mixes (ReadsBack version) where
  nil := ⟨by simp, by simp⟩
  shuffle := by
    intro l₁ l₂ l hs h₁ h₂
    refine ⟨fun k commit hm => ?_, fun k hm => ?_⟩
    · exact hs.mem.2 ((hs.mem.1 hm).imp (h₁.put k commit) (h₂.put k commit))
    · exact hs.mem.2 ((hs.mem.1 hm).imp (h₁.evict k) (h₂.evict k))

theorem readsBack_of_only {version : FixedBytes 32} {p : Part} (hp : p ≠ .commitment)
    {tr : Trace sig} (h : Only (Of p) tr) : ReadsBack version tr :=
  ⟨fun _ _ hm => absurd (h _ hm).symm hp, fun _ hm => absurd (h _ hm).symm hp⟩

section Reads

variable {cfg : CommitmentConfig} {handle : U256} {hostChainId : UInt64} {tr : Trace sig}

/-- How far a read of the registry can have come. -/
theorem steps_refreshCommitment {p : Task (Except CommitmentError CommitHash)}
    (h : Steps (refreshCommitment cfg handle hostChainId).run tr p) :
    tr = [] ∨ (∃ x, tr = [answered cfg handle x])
      ∨ (∃ commit : CommitHash, tr = [answered cfg handle (.ok commit.1),
        ⟨.putInCache (hostChainId, handle) commit, ()⟩])
      ∨ tr = [answered cfg handle (.ok (.zero 32)),
        ⟨.evictFromCache (hostChainId, handle), ()⟩] := by
  rcases steps_attemptBind h with rfl | ⟨commit | e | _, tr', rfl, h'⟩
  · exact .inl rfl
  · by_cases hc : commit ≠ .zero 32
    · simp only [dif_pos hc] at h'
      rcases steps_attemptBind h' with rfl | ⟨x, tr'', rfl, h''⟩
      · exact .inr (.inl ⟨_, rfl⟩)
      · obtain rfl := steps_pure h''
        exact .inr (.inr (.inl ⟨⟨commit, hc⟩, rfl⟩))
    · simp only [dif_neg hc] at h'
      simp only [ne_eq, not_not] at hc
      subst hc
      rcases steps_attemptBind h' with rfl | ⟨x, tr'', rfl, h''⟩
      · exact .inr (.inl ⟨_, rfl⟩)
      · obtain rfl := steps_pure h''
        exact .inr (.inr (.inr rfl))
  · obtain rfl := steps_pure h'
    exact .inr (.inl ⟨_, rfl⟩)
  · obtain rfl := steps_pure h'
    exact .inr (.inl ⟨_, rfl⟩)

theorem readsBack_refreshCommitment :
    Always (ReadsBack cfg.version) (refreshCommitment cfg handle hostChainId).run := by
  intro tr p h
  rcases steps_refreshCommitment h with rfl | ⟨x, rfl⟩ | ⟨commit, rfl⟩ | rfl
  · exact ⟨by simp, by simp⟩
  · exact ⟨by simp, by simp⟩
  · refine ⟨fun k commit' hm => ?_, by simp⟩
    simp only [List.mem_cons, Sigma.mk.injEq, reduceCtorEq, false_and, false_or,
      Op.putInCache.injEq, List.not_mem_nil, or_false] at hm
    obtain ⟨⟨rfl, rfl⟩, -⟩ := hm
    exact List.mem_cons_self ..
  · refine ⟨by simp, fun k hm => ?_⟩
    simp only [List.mem_cons, Sigma.mk.injEq, reduceCtorEq, false_and, false_or,
      Op.evictFromCache.injEq, List.not_mem_nil, or_false] at hm
    obtain ⟨rfl, -⟩ := hm
    exact List.mem_cons_self ..

theorem readsBack_fetchCommitment :
    Always (ReadsBack cfg.version) (fetchCommitment cfg handle hostChainId).run :=
  always_fetchCommitment (mixes_readsBack _) (fun x => ⟨by simp, by simp⟩)
    readsBack_refreshCommitment

theorem readsBack_log (version : FixedBytes 32) (reason : String) (mode : Option String) :
    ReadsBack version [⟨.log (commitmentLog reason mode), ()⟩] := ⟨by simp, by simp⟩

end Reads

/-- Every cached hash was stored, at the time its entry carries, by a request that the registry had
answered it to. -/
theorem cached_read {ι R : Type} {prog : ι → Task R} {s₀ : Shared}
    {c : Config (shared ttl) ι R} {version : FixedBytes 32}
    (hread : ∀ i, Always (ReadsBack version) (prog i)) (h₀ : s₀.cache.entries = [])
    (hc : Reachable prog s₀ c) {entry : CacheEntry} (hf : c.state.cache.find key = some entry) :
    ∃ e ∈ c.hist, e.event = ⟨.putInCache key entry.commit, ()⟩ ∧ e.pre.now = entry.storedAt
      ∧ entry.storedAt ≤ c.state.now
      ∧ ∃ a ∈ c.hist, a.pid = e.pid ∧ a.job = e.job
        ∧ a.event = ⟨.getCommitment version (toBeBytes key.2), .ok entry.commit.1⟩ := by
  obtain ⟨e, he, hev, hnow⟩ := (stamped h₀ hc).stored key entry hf
  have hback : ReadsBack version (c.eventsOf e.pid) :=
    hc.always (mixes_readsBack version).nil hread e.pid
  have hput : ⟨.putInCache key entry.commit, ()⟩ ∈ c.eventsOf e.pid :=
    mem_eventsOf.2 ⟨e, he, rfl, hev⟩
  obtain ⟨a, ha, hpid, haev⟩ := mem_eventsOf.1 (hback.put key entry.commit hput)
  exact ⟨e, he, hev, hnow, hnow ▸ (stamped h₀ hc).past e he, a, ha, hpid,
    hc.job_eq he ha hpid, haev⟩

end Teecryptor
