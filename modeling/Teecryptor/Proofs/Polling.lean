import Teecryptor.Proofs.Statements

/-!
# Polling a v2 result

A v2 submission stores its result under its request id, in the cache of its route, and returns at
once. So what a poll finds is what the submission with that id returned, and it is found as long as
fewer than 1000 other ids were used on the route since (`poll_returns_own`).
-/

namespace Teecryptor

open Interact Interact.Prog Rust

/-- The two routes whose results can be polled. -/
inductive V2Route
  | decrypt
  | sealoutput
  deriving DecidableEq, Repr

def V2CachedResult.answer (r : V2CachedResult) : Answer :=
  ⟨.decrypted r.decrypted, r.signature, r.encryptionType⟩

def V2SealCachedResult.answer (r : V2SealCachedResult) : Answer :=
  ⟨.sealed ⟨r.sealedData, r.ephemeralPublicKey, r.nonce⟩, r.signature, r.encryptionType⟩

namespace V2Route

/-- The poll of an id on the route. -/
def poll : V2Route → String → Request
  | decrypt, id => .v2DecryptStatus id
  | sealoutput, id => .v2SealoutputStatus id

/-- The request is submitted on the route. -/
def Submits : V2Route → Request → Prop
  | decrypt, .v2Decrypt _ _ => True
  | sealoutput, .v2Sealoutput _ _ => True
  | _, _ => False

/-- The id and the answer an event stores on the route. -/
def stores : V2Route → Event sig → Option (String × Answer)
  | decrypt, ⟨.v2CachePut id r, _⟩ => some (id, r.answer)
  | sealoutput, ⟨.v2SealCachePut id r, _⟩ => some (id, r.answer)
  | _, _ => none

/-- The id an event asks for on the route, and what it finds. -/
def asks : V2Route → Event sig → Option (String × Option Answer)
  | decrypt, ⟨.v2CacheGet id, x⟩ => some (id, x.map (·.answer))
  | sealoutput, ⟨.v2SealCacheGet id, x⟩ => some (id, x.map (·.answer))
  | _, _ => none

/-- The id an event uses on the route: it is stored, or polled and found. -/
def uses : V2Route → Event sig → Option String
  | decrypt, ⟨.v2CachePut id _, _⟩ => some id
  | decrypt, ⟨.v2CacheGet id, some _⟩ => some id
  | sealoutput, ⟨.v2SealCachePut id _, _⟩ => some id
  | sealoutput, ⟨.v2SealCacheGet id, some _⟩ => some id
  | _, _ => none

end V2Route

/-- The request id in a v2 response. -/
def Body.requestId : Body → Option String
  | .v2DecryptSubmit r => some r.requestId
  | .v2SealOutputSubmit r => some r.requestId
  | .v2DecryptStatus r => some r.requestId
  | .v2SealOutputStatus r => some r.requestId
  | _ => none

/-! ## A submission that stored its result has returned it -/

section Submission

variable {st : AppState} {q : Ask} {e : Entered} {route : V2Route} {tr : Trace sig}
  {ev : Event sig} {id : String} {a : Answer}

theorem stores_of_not_rest (h : ¬ Of .rest ev) : route.stores ev = none := by
  unfold V2Route.stores
  split
  · exact absurd rfl h
  · exact absurd rfl h
  · rfl

/-- An operation and then a response: once the operation is done, so is the program. -/
theorem steps_then_return {o : Op} {resp : Response} {p : Task (Except Response Response)}
    (h : Steps (do let _ ← attempt o; return resp : Attempt Response Response).run tr p)
    (hev : ev ∈ tr) : ev.1 = o ∧ Run (do let _ ← attempt o; return resp :
      Attempt Response Response).run tr (.ok resp) := by
  rcases steps_attemptBind h with rfl | ⟨x, tr', rfl, h'⟩
  · cases hev
  obtain rfl := steps_pure h'
  rw [List.mem_singleton.1 hev]
  exact ⟨rfl, run_attemptBind.2 ⟨x, [], rfl, run_exceptPure.2 ⟨rfl, rfl⟩⟩⟩

/-- The response `resp` returns `a` under the request id of `e`. -/
def Returns (e : Entered) (a : Answer) (resp : Response) : Prop :=
  resp.answer = some a ∧ resp.body.requestId = some e.requestId

theorem steps_answerDecrypt {pt : U256} {ty : EncryptionType} {signature : String}
    {p : Task (Except Response Response)}
    (h : Steps (q.answerDecrypt e pt ty signature).run tr p) (hev : ev ∈ tr)
    (hs : route.stores ev = some (id, a)) :
    id = e.requestId ∧ q.api = .v2 ∧ route = .decrypt ∧ ∃ resp, Returns e a resp
      ∧ Run (q.answerDecrypt e pt ty signature).run tr (.ok resp) := by
  rcases hapi : q.api with _ | _
  · simp only [Ask.answerDecrypt, hapi] at h
    obtain rfl := steps_pure h
    cases hev
  · simp only [Ask.answerDecrypt, hapi] at h ⊢
    obtain ⟨ho, hrun⟩ := steps_then_return h hev
    obtain ⟨o, x⟩ := ev
    obtain rfl : o = _ := ho
    rcases route with _ | _
    · cases hs
      exact ⟨rfl, trivial, rfl, _, ⟨rfl, rfl⟩, hrun⟩
    · cases hs

theorem steps_answerSeal {sealed : SealedOutput} {ty : EncryptionType} {signature : String}
    {p : Task (Except Response Response)}
    (h : Steps (q.answerSeal e sealed ty signature).run tr p) (hev : ev ∈ tr)
    (hs : route.stores ev = some (id, a)) :
    id = e.requestId ∧ q.api = .v2 ∧ route = .sealoutput ∧ ∃ resp, Returns e a resp
      ∧ Run (q.answerSeal e sealed ty signature).run tr (.ok resp) := by
  rcases hapi : q.api with _ | _
  · simp only [Ask.answerSeal, hapi] at h
    obtain rfl := steps_pure h
    cases hev
  · simp only [Ask.answerSeal, hapi] at h ⊢
    obtain ⟨ho, hrun⟩ := steps_then_return h hev
    obtain ⟨o, x⟩ := ev
    obtain rfl : o = _ := ho
    rcases route with _ | _
    · cases hs
    · cases hs
      exact ⟨rfl, trivial, rfl, _, ⟨rfl, rfl⟩, hrun⟩

/-- A part of the program that stores nothing on the route comes before what does. -/
theorem steps_past {α β : Type} {x : Attempt Response α} {f : α → Attempt Response β}
    {p : Task (Except Response β)} (h : Steps (x >>= f).run tr p) (hev : ev ∈ tr)
    (hs : route.stores ev = some (id, a))
    (hx : Always (Only fun ev => route.stores ev = none) x.run) :
    ∃ tr₁ tr₂ v, tr = tr₁ ++ tr₂ ∧ Run x.run tr₁ (.ok v) ∧ Steps (f v).run tr₂ p ∧ ev ∈ tr₂ := by
  have hnot : ∀ {tr : Trace sig} {p'}, Steps x.run tr p' → ev ∉ tr := by
    intro tr p' hst hm
    have hnone : route.stores ev = none := hx tr p' hst ev hm
    rw [hs] at hnone
    cases hnone
  rcases steps_exceptBind h with ⟨p', hst⟩ | ⟨tr₁, tr₂, v, rfl, h₁, h₂⟩
  · exact absurd hev (hnot hst)
  · exact ⟨tr₁, tr₂, v, rfl, h₁, h₂, (List.mem_append.1 hev).resolve_left (hnot h₁)⟩

theorem steps_finish {crates : Crates} {signer : Option Signer} {out : U256 × EncryptionType}
    {p : Task (Except Response Response)} (h : Steps (q.finish crates signer e out).run tr p)
    (hev : ev ∈ tr) (hs : route.stores ev = some (id, a)) :
    id = e.requestId ∧ q.api = .v2 ∧ (route = .sealoutput ↔ e.sealTo.isSome)
      ∧ ∃ resp, Returns e a resp ∧ Run (q.finish crates signer e out).run tr (.ok resp) := by
  obtain ⟨pt, ty⟩ := out
  have hO := mixes_only fun ev => route.stores ev = none
  rcases hseal : e.sealTo with _ | acp
  · simp only [Ask.finish, hseal] at h ⊢
    obtain ⟨tr₁, tr₂, signature, rfl, h₁, h₂, hev₂⟩ :=
      steps_past h hev hs (only_resolveSignature hO _ _)
    obtain ⟨hid, hapi, hroute, resp, hret, hrun⟩ := steps_answerDecrypt h₂ hev₂ hs
    refine ⟨hid, hapi, by simp [hroute], resp, hret, ?_⟩
    exact run_exceptBind.2 (.inr ⟨tr₁, tr₂, signature, rfl, h₁, hrun⟩)
  · simp only [Ask.finish, hseal] at h ⊢
    obtain ⟨tr₁, tr₂, pk, rfl, h₁, h₂, hev₂⟩ := steps_past h hev hs (only_recipientKey hO _ _)
    obtain ⟨tr₃, tr₄, sealed, rfl, h₃, h₄, hev₄⟩ := steps_past h₂ hev₂ hs
      (only_sealFor (fun _ => by cases route <;> rfl) (fun _ => by cases route <;> rfl) _ _ _ _)
    obtain ⟨tr₅, tr₆, signature, rfl, h₅, h₆, hev₆⟩ :=
      steps_past h₄ hev₄ hs (only_resolveSignature hO _ _)
    obtain ⟨hid, hapi, hroute, resp, hret, hrun⟩ := steps_answerSeal h₆ hev₆ hs
    refine ⟨hid, hapi, by simp [hroute], resp, hret, ?_⟩
    exact run_exceptBind.2 (.inr ⟨tr₁, _, pk, rfl, h₁, run_exceptBind.2 (.inr ⟨tr₃, _, sealed, rfl,
      h₃, run_exceptBind.2 (.inr ⟨tr₅, tr₆, signature, rfl, h₅, hrun⟩)⟩)⟩)

theorem enter_requestId (h : Run q.enter.run tr (.ok e)) :
    (⟨.newUuid, e.requestId⟩ : Event sig) ∈ tr := by
  obtain ⟨id, tr₁, rfl, h₁⟩ := run_attemptBind.1 h
  rcases run_exceptBind.1 h₁ with ⟨_, he, -⟩ | ⟨tr₂, tr₃, handle, rfl, -, h₃⟩
  · cases he
  rcases run_exceptBind.1 h₃ with ⟨_, he, -⟩ | ⟨tr₄, tr₅, now, rfl, -, h₅⟩
  · cases he
  rcases run_exceptBind.1 h₅ with ⟨_, he, -⟩ | ⟨tr₆, tr₇, sealTo, rfl, -, h₇⟩
  · cases he
  obtain ⟨-, he⟩ := run_exceptPure.1 h₇
  cases he
  exact List.mem_cons_self ..

/-- A request that has stored an answer on a route was submitted there, has run to its end, and
returned that answer under the id it stored it under. -/
theorem stored_returned {req : Request} {p : Task Response} (h : Steps (serve st req) tr p)
    (hev : ev ∈ tr) (hs : route.stores ev = some (id, a)) :
    route.Submits req ∧ (⟨.newUuid, id⟩ : Event sig) ∈ tr
      ∧ ∃ resp, Run (serve st req) tr resp ∧ resp.answer = some a
        ∧ resp.body.requestId = some id := by
  rcases hq : req.ask with _ | q
  · have honly : Always (Only fun ev => route.stores ev = none) (serve st req) :=
      only_poll hq (fun _ _ => by cases route <;> rfl) fun _ _ => by cases route <;> rfl
    rw [honly tr p h ev hev] at hs
    cases hs
  rw [serve_eq st hq] at h
  obtain ⟨p', h'⟩ := steps_of_bind_pure (fun r => by rcases r <;> exact ⟨_, rfl⟩) h
  obtain ⟨trE, tr₁, e, rfl, hE, h₁, hev₁⟩ := steps_past h' hev hs
    (only_enter.mono fun tr ho => ho.mono fun ev' hev' => by
      obtain ⟨o, x⟩ := ev'
      rcases hev' with rfl | rfl <;> cases route <;> rfl)
  obtain ⟨trF, trZ, out, rfl, hF, h₂, hev₂⟩ := steps_past h₁ hev₁ hs
    (only_fetchDecrypt.mono fun tr ho => ho.mono fun ev' hev' => stores_of_not_rest hev')
  obtain ⟨rfl, hapi, hroute, resp, ⟨hans, hid⟩, hZ⟩ := steps_finish h₂ hev₂ hs
  obtain ⟨-, hseal, hacp⟩ := enter_ok hE
  refine ⟨?_, List.mem_append_left _ (enter_requestId hE), resp, ?_, hans, hid⟩
  · -- the route is the one the request's version and kind make it
    have hkind : e.sealTo.isSome = q.seals := by
      rcases hqs : q.seals with _ | _
      · simp [hseal, hqs]
      · obtain ⟨acp, ha⟩ := hacp hqs
        simp [hseal, hqs, ha]
    rw [hkind] at hroute
    rcases req with ⟨headers, _ | req⟩ | ⟨headers, _ | req⟩ | ⟨headers, _ | req⟩
      | ⟨headers, _ | req⟩ | id | id
    all_goals cases hq
    · cases hapi
    · cases hapi
    · rcases route with _ | _
      · trivial
      · simp at hroute
    · rcases route with _ | _
      · simp at hroute
      · trivial
  · exact (run_serve hq).2 (.inr ⟨trE, trF ++ trZ, e, rfl, hE, .inr ⟨trF, trZ, out, rfl, hF,
      .inl hZ⟩⟩)

end Submission

/-! ## What a result cache keeps -/

section Kept

variable {V : Type} {ttl : ℕ} {st : AppState} {s₀ : Shared}
  {c : Config (shared ttl) Request Response}

/-- A cache of the process that changes by the uses `use` reads off the events and by nothing
else. -/
structure UsedBy (ttl : ℕ) (cache : Shared → Lru String V)
    (use : Event sig → Option (Lru.Use String V)) : Prop where
  perform : ∀ {s s' : Shared} {ev : Event sig}, s.perform ttl ev.1 ev.2 s' →
    cache s' = ((use ev).map (cache s).use).getD (cache s)
  found : ∀ {s s' : Shared} {ev : Event sig} {id : String}, s.perform ttl ev.1 ev.2 s' →
    use ev = some (.hit id) → ((cache s).find id).isSome
  env : ∀ {s s' : Shared}, s.Env s' → cache s' = cache s
  release : ∀ (s : Shared) (tr : Trace sig), cache (s.release tr) = cache s

variable {cache : Shared → Lru String V} {use : Event sig → Option (Lru.Use String V)}

theorem UsedBy.uses (h : UsedBy ttl cache use) (hc : Reachable (serve st) s₀ c) :
    cache c.state = (cache s₀).uses (c.hist.filterMap fun ev => use ev.event) := by
  refine hc.invariant (I := fun s hist => cache s = (cache s₀).uses
    (hist.filterMap fun ev => use ev.event)) rfl ?_ ?_ ?_
  · intro hist ev ih hp
    have hpost : cache ev.post = _ := h.perform hp
    rw [hpost, List.filterMap_append, Lru.uses_append, ← ih]
    rcases hu : use ev.event with _ | u
    · simp [hu, Lru.uses]
    · simp [hu, Lru.uses]
  · intro s s' hist ih he
    exact (h.env he).trans ih
  · intro s hist tr ih
    exact (h.release s tr).trans ih

/-- An id that was used is still there when fewer other ids were used since than fit. -/
theorem UsedBy.kept (h : UsedBy ttl cache use) (hc : Reachable (serve st) s₀ c) {i j : ℕ}
    {ei ej : Entry (shared ttl) Request} (hj : c.hist[j]? = some ej) (hi : c.hist[i]? = some ei)
    (hji : j < i) {u : Lru.Use String V} (hu : use ej.event = some u)
    (hcard : ((((c.hist.take i).drop (j + 1)).filterMap fun ev =>
      (use ev.event).map Lru.Use.key).toFinset.erase u.key).card < (cache s₀).cap) :
    ((cache ei.pre).find u.key).isSome := by
  obtain ⟨ci, hci, hhi, hsi⟩ := hc.before_at hi
  obtain ⟨cj, hcj, hhj, hsj⟩ := hc.before_at hj
  -- the uses before `i`: those before `j`, the one at `j`, and those between
  have hsplit : c.hist.take i = c.hist.take j ++ ej :: (c.hist.take i).drop (j + 1) := by
    have hlt : j < (c.hist.take i).length := by
      have := (List.getElem?_eq_some_iff.1 hi).1
      rw [List.length_take]
      omega
    have hget : (c.hist.take i)[j] = ej := by
      have := (List.getElem?_eq_some_iff.1 hj).2
      simpa using this
    have htake : (c.hist.take i).take j = c.hist.take j := by
      rw [List.take_take, Nat.min_eq_left (by omega)]
    rw [← htake, ← hget, ← List.drop_eq_getElem_cons hlt, List.take_append_drop]
  generalize (c.hist.take i).drop (j + 1) = between at hsplit hcard
  have hcons : (ej :: between).filterMap (fun ev => use ev.event)
      = u :: between.filterMap fun ev => use ev.event := by
    simp [hu]
  have hstate : cache ei.pre = ((cache ej.pre).use u).uses
      (between.filterMap fun ev => use ev.event) := by
    rw [← hsi, h.uses hci, hhi, hsplit, List.filterMap_append, Lru.uses_append, ← hhj,
      ← h.uses hcj, hsj, hcons]
    rfl
  have hrecent : ((cache ej.pre).use u).Recent u.key ∅ := by
    cases u with
    | put id v => exact Lru.recent_put _ _ _
    | hit id =>
      exact Lru.recent_touch (h.found (hc.performs ej (List.mem_of_getElem? hj)) hu)
  have hcap : (cache ej.pre).cap = (cache s₀).cap := by
    rw [← hsj, h.uses hcj, Lru.cap_uses]
  rw [hstate]
  refine (hrecent.uses _ ?_).isSome
  rw [Finset.empty_union, List.map_filterMap, Lru.cap_use, hcap]
  exact hcard

end Kept

def decryptUse : Event sig → Option (Lru.Use String V2CachedResult)
  | ⟨.v2CachePut id r, _⟩ => some (.put id r)
  | ⟨.v2CacheGet id, some _⟩ => some (.hit id)
  | _ => none

def sealUse : Event sig → Option (Lru.Use String V2SealCachedResult)
  | ⟨.v2SealCachePut id r, _⟩ => some (.put id r)
  | ⟨.v2SealCacheGet id, some _⟩ => some (.hit id)
  | _ => none

theorem usedBy_decrypt (ttl : ℕ) : UsedBy ttl Shared.v2Cache decryptUse where
  perform := by
    intro s s' ev h
    obtain ⟨o, x⟩ := ev
    cases o with
    | v2CachePut id r =>
      obtain rfl : s' = _ := h
      rfl
    | v2CacheGet id =>
      obtain ⟨hx, rfl⟩ := h
      rcases x with _ | r
      · exact Lru.touch_of_find_none hx.symm
      · rfl
    | v2SealCachePut id r =>
      obtain rfl : s' = _ := h
      rfl
    | v2SealCacheGet id =>
      obtain ⟨-, rfl⟩ := h
      rfl
    | _ => exact ((perform_frame h).2.2 rfl).1
  found := by
    intro s s' ev id h hu
    unfold decryptUse at hu
    split at hu
    · cases hu
    next id' r =>
      cases hu
      have hfind : some r = s.v2Cache.find id := h.1
      rw [← hfind]
      rfl
    · cases hu
  env := by
    rintro s s' (⟨now, -⟩ | ⟨task, -⟩)
    · rfl
    · rfl
  release := fun _ _ => rfl

theorem usedBy_seal (ttl : ℕ) : UsedBy ttl Shared.v2SealCache sealUse where
  perform := by
    intro s s' ev h
    obtain ⟨o, x⟩ := ev
    cases o with
    | v2SealCachePut id r =>
      obtain rfl : s' = _ := h
      rfl
    | v2SealCacheGet id =>
      obtain ⟨hx, rfl⟩ := h
      rcases x with _ | r
      · exact Lru.touch_of_find_none hx.symm
      · rfl
    | v2CachePut id r =>
      obtain rfl : s' = _ := h
      rfl
    | v2CacheGet id =>
      obtain ⟨-, rfl⟩ := h
      rfl
    | _ => exact ((perform_frame h).2.2 rfl).2
  found := by
    intro s s' ev id h hu
    unfold sealUse at hu
    split at hu
    · cases hu
    next id' r =>
      cases hu
      have hfind : some r = s.v2SealCache.find id := h.1
      rw [← hfind]
      rfl
    · cases hu
  env := by
    rintro s s' (⟨now, -⟩ | ⟨task, -⟩)
    · rfl
    · rfl
  release := fun _ _ => rfl

/-! ## Polls -/

section Polls

variable {st : AppState} {ttl : ℕ} {s₀ : Shared} {c : Config (shared ttl) Request Response}
  {route : V2Route} {id : String}

/-- The result caches as `AppState::new` makes them. -/
structure Shared.FreshResults (s : Shared) : Prop where
  empty : s.NoResults
  decryptCap : s.v2Cache.cap = 1000
  sealCap : s.v2SealCache.cap = 1000

theorem Shared.freshResults_new (now parallelism : ℕ) (cache : Lru CommitKey CacheEntry) :
    (Shared.new now parallelism cache).FreshResults := ⟨⟨rfl, rfl⟩, rfl, rfl⟩

/-- A poll asks its route's cache for the id, and answers with what is found. -/
theorem run_poll {tr : Trace sig} {resp : Response} (h : Run (serve st (route.poll id)) tr resp) :
    ∃ ev x, tr = [ev] ∧ route.asks ev = some (id, x) ∧ ((x = none ∧ resp = notFoundResponse)
      ∨ ∃ a, x = some a ∧ resp.status = 200 ∧ resp.body.polled = some a
        ∧ resp.body.requestId = some id) := by
  rcases route with _ | _
  · obtain ⟨x, tr', rfl, h'⟩ := run_performBind.1 h
    rcases x with _ | r
    · obtain ⟨rfl, rfl⟩ := run_pure.1 h'
      exact ⟨_, none, rfl, rfl, .inl ⟨rfl, rfl⟩⟩
    · obtain ⟨rfl, rfl⟩ := run_pure.1 h'
      exact ⟨_, some r.answer, rfl, rfl, .inr ⟨_, rfl, rfl, rfl, rfl⟩⟩
  · obtain ⟨x, tr', rfl, h'⟩ := run_performBind.1 h
    rcases x with _ | r
    · obtain ⟨rfl, rfl⟩ := run_pure.1 h'
      exact ⟨_, none, rfl, rfl, .inl ⟨rfl, rfl⟩⟩
    · obtain ⟨rfl, rfl⟩ := run_pure.1 h'
      exact ⟨_, some r.answer, rfl, rfl, .inr ⟨_, rfl, rfl, rfl, rfl⟩⟩

/-- What a poll finds was stored under the id on its route. -/
theorem found_stored (h₀ : s₀.FreshResults) (hc : Reachable (serve st) s₀ c) {pid : ℕ}
    {t : Thread sig Request Response} (ht : c.threads pid = some t) {ev : Event sig}
    (hev : ev ∈ t.trace) {a : Answer} (ha : route.asks ev = some (id, some a)) :
    ∃ e ∈ c.hist, route.stores e.event = some (id, a) := by
  obtain ⟨hd, hs⟩ := polled_found h₀.empty hc ht hev id
  unfold V2Route.asks at ha
  split at ha
  next id' x =>
    rcases x with _ | r
    · cases ha
    · cases ha
      obtain ⟨e, he, hput⟩ := hd r rfl
      exact ⟨e, he, by rw [hput]; rfl⟩
  next id' x =>
    rcases x with _ | r
    · cases ha
    · cases ha
      obtain ⟨e, he, hput⟩ := hs r rfl
      exact ⟨e, he, by rw [hput]; rfl⟩
  next => cases ha

theorem uses_decrypt (ev : Event sig) :
    V2Route.decrypt.uses ev = (decryptUse ev).map Lru.Use.key := by
  obtain ⟨o, x⟩ := ev
  cases o
  case v2CacheGet id => rcases x with _ | r <;> rfl
  all_goals rfl

theorem uses_seal (ev : Event sig) :
    V2Route.sealoutput.uses ev = (sealUse ev).map Lru.Use.key := by
  obtain ⟨o, x⟩ := ev
  cases o
  case v2SealCacheGet id => rcases x with _ | r <;> rfl
  all_goals rfl

theorem asks_decrypt {s s' : Shared} {ev : Event sig} (hp : s.perform ttl ev.1 ev.2 s')
    {x : Option Answer} (h : V2Route.decrypt.asks ev = some (id, x)) :
    x = (s.v2Cache.find id).map (·.answer) := by
  obtain ⟨o, y⟩ := ev
  cases o
  case v2CacheGet id' =>
    cases h
    exact congrArg (Option.map _) hp.1
  all_goals cases h

theorem asks_seal {s s' : Shared} {ev : Event sig} (hp : s.perform ttl ev.1 ev.2 s')
    {x : Option Answer} (h : V2Route.sealoutput.asks ev = some (id, x)) :
    x = (s.v2SealCache.find id).map (·.answer) := by
  obtain ⟨o, y⟩ := ev
  cases o
  case v2SealCacheGet id' =>
    cases h
    exact congrArg (Option.map _) hp.1
  all_goals cases h

/-- A poll finds an id that was used and then not crowded out. -/
theorem asks_kept (h₀ : s₀.FreshResults) (hc : Reachable (serve st) s₀ c) {i j : ℕ}
    {ei ej : Entry (shared ttl) Request} (hj : c.hist[j]? = some ej) (hi : c.hist[i]? = some ei)
    (hji : j < i) (hu : route.uses ej.event = some id)
    (hcard : ((((c.hist.take i).drop (j + 1)).filterMap fun e =>
      route.uses e.event).toFinset.erase id).card < 1000) {x : Option Answer}
    (ha : route.asks ei.event = some (id, x)) : x.isSome := by
  have hperf := hc.performs ei (List.mem_of_getElem? hi)
  rcases route with _ | _
  · simp only [uses_decrypt] at hu hcard
    obtain ⟨u, huse, rfl⟩ := Option.map_eq_some_iff.1 hu
    have hsome := (usedBy_decrypt ttl).kept hc hj hi hji huse (by rwa [h₀.decryptCap])
    rw [asks_decrypt hperf ha, Option.isSome_map]
    exact hsome
  · simp only [uses_seal] at hu hcard
    obtain ⟨u, huse, rfl⟩ := Option.map_eq_some_iff.1 hu
    have hsome := (usedBy_seal ttl).kept hc hj hi hji huse (by rwa [h₀.sealCap])
    rw [asks_seal hperf ha, Option.isSome_map]
    exact hsome

/-- Different requests draw different ids. -/
def DistinctIds (c : Config (shared ttl) Request Response) : Prop :=
  ∀ e ∈ c.hist, ∀ e' ∈ c.hist, ∀ id, e.event = ⟨.newUuid, id⟩ → e'.event = ⟨.newUuid, id⟩ →
    e'.pid = e.pid

/-- The request that drew `id` was submitted on the route, and has returned `a` under it. -/
def ReturnedUnder (st : AppState) (c : Config (shared ttl) Request Response) (route : V2Route)
    (id : String) (a : Answer) : Prop :=
  ∃ e ∈ c.hist, e.event = ⟨.newUuid, id⟩ ∧ route.Submits e.job
    ∧ (∃ resp, Run (serve st e.job) (c.eventsOf e.pid) resp ∧ resp.answer = some a
      ∧ resp.body.requestId = some id)
    ∧ ∀ e' ∈ c.hist, e'.event = ⟨.newUuid, id⟩ → e'.pid = e.pid

theorem stored_returnedUnder (hc : Reachable (serve st) s₀ c) (hids : DistinctIds c)
    {e : Entry (shared ttl) Request} (he : e ∈ c.hist) {a : Answer}
    (hs : route.stores e.event = some (id, a)) : ReturnedUnder st c route id a := by
  obtain ⟨p, hsteps⟩ := hc.steps_of_mem he
  have hmem : e.event ∈ c.eventsOf e.pid := mem_eventsOf.2 ⟨e, he, rfl, rfl⟩
  obtain ⟨hsub, huuid, hret⟩ := stored_returned hsteps hmem hs
  obtain ⟨e₁, he₁, hpid, hev⟩ := mem_eventsOf.1 huuid
  have hjob : e₁.job = e.job := hc.job_eq he he₁ hpid
  refine ⟨e₁, he₁, hev, ?_, ?_, fun e' he' hev' => hids e₁ he₁ e' he' id hev hev'⟩
  · rwa [hjob]
  · rwa [hjob, hpid]

end Polls

/-- In every run of submissions and polls with distinct request ids: a poll answers 404, or the
value, signature and type that the one request with that id, submitted on the same route, returned;
404 if that request did not succeed or was not submitted on the route; and the result if fewer
than 1000 other ids were used on the route since the id was last. -/
theorem poll_returns_own (st : AppState) (ttl : ℕ) {s₀ : Shared} (h₀ : s₀.FreshResults)
    {c : Config (shared ttl) Request Response} (hc : Reachable (serve st) s₀ c)
    (hids : DistinctIds c) (route : V2Route) (id : String) {pid : ℕ}
    {t : Thread sig Request Response} (ht : c.threads pid = some t) (hjob : t.job = route.poll id)
    {resp : Response} (hr : t.rest = .pure resp) :
    (resp = notFoundResponse ∨ ∃ a, resp.status = 200 ∧ resp.body.polled = some a
      ∧ resp.body.requestId = some id ∧ ReturnedUnder st c route id a)
    ∧ (∀ e ∈ c.hist, e.event = ⟨.newUuid, id⟩ →
      (¬ route.Submits e.job
        ∨ ∀ r, Run (serve st e.job) (c.eventsOf e.pid) r → r.answer = none) →
      resp = notFoundResponse)
    ∧ ∀ (i j : ℕ) (ei ej : Entry (shared ttl) Request), c.hist[i]? = some ei → ei.pid = pid →
      c.hist[j]? = some ej → j < i → route.uses ej.event = some id →
      ((((c.hist.take i).drop (j + 1)).filterMap fun e =>
        route.uses e.event).toFinset.erase id).card < 1000 → resp.status = 200 := by
  have hrun := hc.run ht hr
  rw [hjob] at hrun
  obtain ⟨ev, x, htr, hasks, hx⟩ := run_poll hrun
  have hfirst : resp = notFoundResponse ∨ ∃ a, resp.status = 200 ∧ resp.body.polled = some a
      ∧ resp.body.requestId = some id ∧ ReturnedUnder st c route id a := by
    rcases hx with ⟨-, hresp⟩ | ⟨a, rfl, hstatus, hpolled, hid⟩
    · exact .inl hresp
    · obtain ⟨e, he, hs⟩ := found_stored h₀ hc ht (by rw [htr]; simp) hasks
      exact .inr ⟨a, hstatus, hpolled, hid, stored_returnedUnder hc hids he hs⟩
  refine ⟨hfirst, ?_, ?_⟩
  · intro e he hev hfail
    rcases hfirst with hresp | ⟨a, -, -, -, e₁, he₁, hev₁, hsub, ⟨r, hr₁, hans, -⟩, huniq⟩
    · exact hresp
    · have hpid : e.pid = e₁.pid := huniq e he hev
      have hjob₁ : e.job = e₁.job := hc.job_eq he₁ he hpid
      rcases hfail with hnot | hnone
      · rw [hjob₁] at hnot
        exact absurd hsub hnot
      · rw [hjob₁, hpid] at hnone
        rw [hnone r hr₁] at hans
        cases hans
  · intro i j ei ej hi hpid hj hji hu hcard
    -- the poll's one event is the entry at `i`
    have hei : ei.event = ev := by
      have hmem : ei.event ∈ t.trace :=
        (hc.mem_trace ht).2 ⟨ei, List.mem_of_getElem? hi, hpid, rfl⟩
      rw [htr] at hmem
      exact List.mem_singleton.1 hmem
    rw [← hei] at hasks
    have hsome := asks_kept h₀ hc hj hi hji hu hcard hasks
    rcases hx with ⟨rfl, -⟩ | ⟨a, -, hstatus, -⟩
    · cases hsome
    · exact hstatus

/-- The sample request on the v2 route. -/
def sampleSubmit : Request := .v2Decrypt none (.ok ⟨String.ofList sampleDigits, 1, none⟩)

def sampleSubmitted : Response :=
  .okJson (.v2DecryptSubmit ⟨"id", some (toBeBytes 1).1, some sampleSignature, some 0⟩)

def sampleStored : V2CachedResult := ⟨(toBeBytes 1).1, sampleSignature, 0, "now", "now"⟩

def samplePolled : Response :=
  .okJson (.v2DecryptStatus ⟨"id", .completed, "now", some "now", some true,
    some (toBeBytes 1).1, some sampleSignature, some 0, none⟩)

theorem sample_submit : Run (serve (sampleState false) sampleSubmit)
    (⟨.newUuid, "id"⟩ :: ⟨.utcNow, "now"⟩ :: (sampleFetch ++ [⟨.v2CachePut "id" sampleStored, ()⟩]))
    sampleSubmitted := by
  refine (run_serve (q := { sampleAsk 1 with api := .v2 }) rfl).2 (.inr
    ⟨[⟨.newUuid, "id"⟩, ⟨.utcNow, "now"⟩], _, ⟨"id", "now", sampleHandle, none⟩, rfl, ?_, .inr
      ⟨sampleFetch, [⟨.v2CachePut "id" sampleStored, ()⟩], (1, .bool), rfl,
        sample_fetch false .v2, .inl ?_⟩⟩)
  · refine run_attemptBind.2 ⟨"id", [⟨.utcNow, "now"⟩], rfl, run_exceptBind.2 (.inr
      ⟨[], [⟨.utcNow, "now"⟩], sampleHandle, rfl, ?_, run_attemptBind.2 ⟨"now", [], rfl,
        run_exceptPure.2 ⟨rfl, rfl⟩⟩⟩)⟩
    simp [parseHandle, sampleAsk, sample_parse, run_pure]
  · refine run_exceptBind.2 (.inr ⟨[], [⟨.v2CachePut "id" sampleStored, ()⟩], sampleSignature, rfl,
      run_resolveSignature (congrArg some sample_sign), ?_⟩)
    exact run_attemptBind.2 ⟨(), [], rfl, run_exceptPure.2 ⟨rfl, rfl⟩⟩

def sampleFresh : Shared := .new 0 1 sampleShared.cache

theorem sample_stores (ttl : ℕ) : ∃ s, (shared ttl).Performs sampleFresh (⟨.newUuid, "id"⟩ ::
    ⟨.utcNow, "now"⟩ :: (sampleFetch ++ [⟨.v2CachePut "id" sampleStored, ()⟩])) s
      ∧ (s.v2Cache.get "id").1 = some sampleStored := by
  exact ⟨_, .step rfl (.step rfl (.step ⟨rfl, rfl⟩ (.step rfl (.step rfl (.step rfl (.step rfl
    (.step rfl (.step ⟨Nat.succ_pos 0, rfl⟩ (.step ⟨rfl, rfl⟩
    (.cons (.single (.finish 0 (List.mem_singleton.2 rfl))) ⟨List.not_mem_nil, rfl⟩
    (.step rfl (.step rfl (.nil .refl))))))))))))), rfl⟩

theorem poll_returns_own_sample : ∃ (c : Config (shared 10) Request Response) (pid : ℕ)
    (t : Thread sig Request Response), sampleFresh.FreshResults
      ∧ Reachable (serve (sampleState false)) sampleFresh c ∧ c.threads pid = some t
      ∧ t.job = V2Route.decrypt.poll "id" ∧ t.rest = .pure samplePolled
      ∧ ReturnedUnder (sampleState false) c .decrypt "id" sampleStored.answer := by
  have h₀ : sampleFresh.FreshResults := Shared.freshResults_new _ _ _
  obtain ⟨s, hperf, hfound⟩ := sample_stores 10
  obtain ⟨c₁, hc₁, hs₁, hh₁, -⟩ := reachable_run sample_submit hperf
  -- the poll comes after the submission has returned
  have hpoll : Run (serve (sampleState false) (V2Route.decrypt.poll "id"))
      [⟨.v2CacheGet "id", some sampleStored⟩] samplePolled :=
    run_performBind.2 ⟨some sampleStored, [], rfl, run_pure.2 ⟨rfl, rfl⟩⟩
  obtain ⟨s', hget⟩ : ∃ s', (shared 10).Performs c₁.state
      [⟨.v2CacheGet "id", some sampleStored⟩] s' := by
    rw [hs₁]
    exact ⟨_, .step ⟨hfound.symm, rfl⟩ (.nil .refl)⟩
  obtain ⟨c, later, hc, -, -, hh, hlater, -, ht, -⟩ := reachable_next hc₁ hpoll hget
  have hids : DistinctIds c := by
    replace hh := congrArg (List.map Entry.event) hh
    rw [List.map_append, hh₁, hlater, List.cons_append] at hh
    obtain ⟨e₀, hist, hcons, -, hrest⟩ := List.map_eq_cons_iff.1 hh
    have hfirst : ∀ e ∈ c.hist, ∀ id, e.event = ⟨.newUuid, id⟩ → e = e₀ := by
      intro e he id hev
      rw [hcons, List.mem_cons] at he
      rcases he with rfl | he
      · rfl
      · have hop : Op.newUuid ∈ (hist.map Entry.event).map Sigma.fst := by
          exact List.mem_map.2 ⟨_, List.mem_map.2 ⟨e, he, hev⟩, rfl⟩
        rw [hrest] at hop
        simp [sampleFetch, sampleGates] at hop
    intro e he e' he' id hev hev'
    rw [hfirst e he id hev, hfirst e' he' id hev']
  refine ⟨c, c₁.next, _, h₀, hc, ht, rfl, rfl, ?_⟩
  have hown := (poll_returns_own (sampleState false) 10 h₀ hc hids .decrypt "id" ht rfl rfl).1
  rcases hown with hnot | ⟨a, -, hpolled, -, hret⟩
  · cases hnot
  · cases hpolled
    exact hret

end Teecryptor
