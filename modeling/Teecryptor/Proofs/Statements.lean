import Teecryptor.Proofs.Soundness

/-!
# What a response's signature is over

A result is signed as bytes the client can put together from its request and the response, and the
two layouts never give the same bytes to two different results. A v2 result can also be polled: it
is the one some request stored under the polled id.
-/

namespace Teecryptor

open Interact Interact.Prog Rust Bytes

/-- The bytes of a result, as they stand at the front of what is signed. -/
def Result.bytes : Result → List UInt8
  | .decrypted b => b
  | .sealed s => s.data ++ s.publicKey ++ s.nonce

/-- What a client puts together for an answer to its request: the result, the type in four bytes,
the chain in eight, and the handle. -/
def Answer.preimage (a : Answer) (chainId : UInt64) (handle : FixedBytes 32) : List UInt8 :=
  a.result.bytes ++ toBe 4 (a.encryptionType % 2 ^ 32).toNat ++ toBe 8 chainId.toNat ++ handle.1

/-- The sizes of a result's parts: a 32-byte value, or a box with its 32-byte ephemeral key and its
24-byte nonce. -/
def Result.Sized : Result → Prop
  | .decrypted b => b.length = 32
  | .sealed s => s.publicKey.length = 32 ∧ s.nonce.length = 24

/-! ## Neither layout is ambiguous -/

theorem preimage_eq (a : Answer) (chainId : UInt64) (handle : FixedBytes 32) :
    a.preimage chainId handle
      = a.result.bytes ++ preimageTail a.encryptionType chainId handle := by
  rw [preimageTail, ← List.append_assoc, ← List.append_assoc]
  rfl

theorem length_preimageTail (ty : ℤ) (chainId : UInt64) (handle : FixedBytes 32) :
    (preimageTail ty chainId handle).length = 44 := by
  simp [preimageTail, i32ToBeBytes, handle.2]

theorem i32ToBeBytes_inj {ty ty' : EncryptionType}
    (h : i32ToBeBytes ty.toI32 = i32ToBeBytes ty'.toI32) : ty = ty' := by
  cases ty <;> cases ty' <;> first | rfl | exact absurd h (by decide)

theorem preimageTail_inj {ty ty' : EncryptionType} {chainId chainId' : UInt64}
    {handle handle' : FixedBytes 32}
    (h : preimageTail ty.toI32 chainId handle = preimageTail ty'.toI32 chainId' handle') :
    ty = ty' ∧ chainId = chainId' ∧ handle = handle' := by
  have hlen : ∀ v, (i32ToBeBytes v).length = 4 := fun v => length_toBe 4 _
  obtain ⟨hfront, hhandle⟩ := List.append_inj' h (by rw [handle.2, handle'.2])
  obtain ⟨hty, hchain⟩ := List.append_inj hfront (by rw [hlen, hlen])
  have hlt : ∀ c : UInt64, c.toNat < 256 ^ 8 := fun c => c.toNat_lt
  exact ⟨i32ToBeBytes_inj hty, UInt64.toNat_inj.1 (toBe_inj (hlt _) (hlt _) hchain),
    Subtype.ext hhandle⟩

theorem toBeBytes_inj {u u' : U256} (h : toBeBytes u = toBeBytes u') : u = u' := by
  have hlt : ∀ u : U256, u.toNat < 256 ^ 32 := by
    intro u
    rw [show (256 : ℕ) ^ 32 = 2 ^ 256 by norm_num]
    exact u.isLt
  have hbytes := congrArg Subtype.val h
  simp only [toBeBytes, FixedBytes.ofNat] at hbytes
  exact BitVec.eq_of_toNat_eq (toBe_inj (hlt u) (hlt u') hbytes)

/-- Results of the sizes the service gives have different bytes: a value is shorter than a key and
a nonce. -/
theorem Result.bytes_inj {r r' : Result} (hr : r.Sized) (hr' : r'.Sized)
    (h : r.bytes = r'.bytes) : r = r' := by
  have hlen := congrArg List.length h
  cases r with
  | decrypted b =>
    cases r' with
    | decrypted b' =>
      have hb : b = b' := h
      rw [hb]
    | sealed s' =>
      simp only [bytes, Sized, List.length_append] at hlen hr hr'
      omega
  | sealed s =>
    cases r' with
    | decrypted b' =>
      simp only [bytes, Sized, List.length_append] at hlen hr hr'
      omega
    | sealed s' =>
      obtain ⟨hfront, hnonce⟩ := List.append_inj' h (by rw [hr.2, hr'.2])
      obtain ⟨hdata, hkey⟩ := List.append_inj' hfront (by rw [hr.1, hr'.1])
      cases s
      cases s'
      simp_all

theorem Answer.preimage_inj {a a' : Answer} {ty ty' : EncryptionType} {chainId chainId' : UInt64}
    {handle handle' : FixedBytes 32} (hty : a.encryptionType = ty.toI32)
    (hty' : a'.encryptionType = ty'.toI32) (hr : a.result.Sized) (hr' : a'.result.Sized)
    (h : a.preimage chainId handle = a'.preimage chainId' handle') :
    a.result = a'.result ∧ a.encryptionType = a'.encryptionType ∧ chainId = chainId'
      ∧ handle = handle' := by
  rw [preimage_eq, preimage_eq] at h
  obtain ⟨hbytes, htail⟩ :=
    List.append_inj' h (by rw [length_preimageTail, length_preimageTail])
  rw [hty, hty'] at htail
  obtain ⟨rfl, hchain, hhandle⟩ := preimageTail_inj htail
  exact ⟨Result.bytes_inj hr hr' hbytes, by rw [hty, hty'], hchain, hhandle⟩

/-! ## What is signed -/

/-- The answer `a` states the result of the request `q`: it has the sizes of a result, and its
signature, if there is a signer, is over the bytes the client puts together. -/
structure States (st : AppState) (q : Ask) (handle : Handle) (a : Answer) : Prop where
  parsed : Handle.parse q.ctTempkey = some handle
  type : ∃ ty : EncryptionType, a.encryptionType = ty.toI32
  sized : a.result.Sized
  signed : ∀ svc, st.signer = some svc →
    svc.signPrehashToHexWithFormat
      (st.crates.keccak256 (a.preimage q.hostChainId (toBeBytes handle.u256)))
      (parseVFormat q.headers) = .ok a.signature

variable {st : AppState} {q : Ask} {e : Entered} {pt : U256} {ty : EncryptionType}

theorem signDecrypt_handle (keccak256 : List UInt8 → FixedBytes 32) (svc : Signer) (handle : Handle)
    (pt : U256) (ty : ℤ) (chainId : UInt64) (f : SignatureVFormat) :
    signDecrypt keccak256 svc pt ty chainId handle.asStr f = svc.signPrehashToHexWithFormat
      (keccak256 (decryptPreimage (toBeBytes pt).1 ty chainId (toBeBytes handle.u256))) f := by
  simp only [signDecrypt, Handle.asStr, handle.agrees]
  rfl

theorem signSealoutput_handle (keccak256 : List UInt8 → FixedBytes 32) (svc : Signer)
    (handle : Handle) (s : SealedOutput) (ty : ℤ) (chainId : UInt64) (f : SignatureVFormat) :
    signSealoutput keccak256 svc s.data s.publicKey s.nonce ty chainId handle.asStr f
      = svc.signPrehashToHexWithFormat (keccak256
          (sealoutputPreimage s.data s.publicKey s.nonce ty chainId (toBeBytes handle.u256))) f := by
  simp only [signSealoutput, Handle.asStr, handle.agrees]
  rfl

theorem states_decrypted (hp : Handle.parse q.ctTempkey = some e.handle) {signature : String}
    (hs : ∀ svc, st.signer = some svc →
      signDecrypt st.crates.keccak256 svc pt ty.toI32 q.hostChainId e.handle.asStr
        (parseVFormat q.headers) = .ok signature) :
    States st q e.handle ⟨.decrypted (toBeBytes pt).1, signature, ty.toI32⟩ where
  parsed := hp
  type := ⟨ty, rfl⟩
  sized := (toBeBytes pt).2
  signed := by
    intro svc hsvc
    rw [← hs svc hsvc, signDecrypt_handle, preimage_eq]
    rfl

theorem states_sealed (hp : Handle.parse q.ctTempkey = some e.handle) {pk plaintext : List UInt8}
    {sealed : SealedOutput} (hb : SealedFrom st.crates.cryptoBox pk plaintext sealed)
    {signature : String}
    (hs : ∀ svc, st.signer = some svc →
      signSealoutput st.crates.keccak256 svc sealed.data sealed.publicKey sealed.nonce ty.toI32
        q.hostChainId e.handle.asStr (parseVFormat q.headers) = .ok signature) :
    States st q e.handle ⟨.sealed sealed, signature, ty.toI32⟩ where
  parsed := hp
  type := ⟨ty, rfl⟩
  sized := by
    obtain ⟨kp, nonce, -, hpk, hn⟩ := hb
    exact ⟨by rw [hpk, kp.publicKey.2], by rw [hn, nonce.2]⟩
  signed := by
    intro svc hsvc
    rw [← hs svc hsvc, signSealoutput_handle, preimage_eq]
    rfl

/-- A request answered with a result states it. -/
theorem states_of_answer {req : Request} {tr : Trace sig} {resp : Response} {a : Answer}
    (h : Run (serve st req) tr resp) (ha : resp.answer = some a) :
    ∃ q handle, req.ask = some q ∧ States st q handle a := by
  obtain ⟨q, e, trE, trF, trZ, ⟨pt, ty⟩, hq, -, hE, -, hZ⟩ := serve_answer h ha
  obtain ⟨hp, -⟩ := enter_ok hE
  refine ⟨q, e.handle, hq, ?_⟩
  rcases hs : e.sealTo with _ | acp
  · obtain ⟨signature, hans, hsign⟩ := finish_decrypt hs hZ
    rw [hans] at ha
    cases ha
    exact states_decrypted hp hsign
  · obtain ⟨pk, sealed, signature, -, hb, hans, hsign⟩ := finish_seal hs hZ
    rw [hans] at ha
    cases ha
    exact states_sealed hp hb hsign

/-! ## What is stored for the poll routes -/

/-- The id and the answer a request stores. -/
def stored : Event sig → Option (String × Answer)
  | ⟨.v2CachePut id r, _⟩ => some (id, ⟨.decrypted r.decrypted, r.signature, r.encryptionType⟩)
  | ⟨.v2SealCachePut id r, _⟩ =>
    some (id, ⟨.sealed ⟨r.sealedData, r.ephemeralPublicKey, r.nonce⟩, r.signature,
      r.encryptionType⟩)
  | _ => none

/-- Whatever the event stores states the result of `q`. -/
def StoresOf (st : AppState) (q : Ask) (e : Event sig) : Prop :=
  ∀ id a, stored e = some (id, a) → ∃ handle, States st q handle a

theorem storesOf_of_none {e : Event sig} (h : stored e = none) : StoresOf st q e := by
  intro id a ha
  rw [h] at ha
  cases ha

theorem stored_of_not_rest {e : Event sig} (h : ¬ Of .rest e) : stored e = none := by
  unfold stored
  split
  · exact absurd rfl h
  · exact absurd rfl h
  · rfl

theorem sealFor_ok {api : ApiVersion} {pk plaintext : List UInt8} {sealed : SealedOutput}
    {tr : Trace sig} (h : Run (sealFor st.crates api pk plaintext).run tr (.ok sealed)) :
    SealedFrom st.crates.cryptoBox pk plaintext sealed := by
  obtain ⟨tr₁, tr₂, r, -, h₁, h₂⟩ := run_liftBind.1 h
  obtain ⟨-, hr⟩ := run_ofExcept.1 h₂
  rcases r with err | out
  · cases hr
  · cases hr
    exact sealToUser_ok h₁

/-- What the end of a request stores is made of the value: a value as it is, or a box of it. -/
theorem only_stored_finish {P : Answer → Prop} (out : U256 × EncryptionType)
    (hdecrypt : ∀ signature, (∀ svc, st.signer = some svc →
      signDecrypt st.crates.keccak256 svc out.1 out.2.toI32 q.hostChainId e.handle.asStr
        (parseVFormat q.headers) = .ok signature) →
      P ⟨.decrypted (toBeBytes out.1).1, signature, out.2.toI32⟩)
    (hseal : ∀ pk sealed signature,
      SealedFrom st.crates.cryptoBox pk (out.2.encode out.1) sealed →
      (∀ svc, st.signer = some svc →
        signSealoutput st.crates.keccak256 svc sealed.data sealed.publicKey sealed.nonce
          out.2.toI32 q.hostChainId e.handle.asStr (parseVFormat q.headers) = .ok signature) →
      P ⟨.sealed sealed, signature, out.2.toI32⟩) :
    Always (Only fun ev => ∀ id a, stored ev = some (id, a) → P a)
      (q.finish st.crates st.signer e out).run := by
  have hO := mixes_only (S := sig) fun ev => ∀ id a, stored ev = some (id, a) → P a
  have hnone : ∀ {ev : Event sig}, stored ev = none → ∀ id a, stored ev = some (id, a) → P a := by
    intro ev h id a ha
    rw [h] at ha
    cases ha
  obtain ⟨pt, ty⟩ := out
  simp only [Ask.finish]
  split
  · refine hO.exceptBind_of_run (only_resolveSignature hO _ _) fun signature tr hsig => ?_
    unfold Ask.answerDecrypt
    split
    · exact always_exceptPure hO _
    · refine hO.exceptBind (only_attempt fun x id a ha => ?_) fun x => always_exceptPure hO _
      cases ha
      refine hdecrypt _ fun svc hsvc => ?_
      rw [hsvc] at hsig
      exact resolveSignature_ok hsig _ rfl
  · refine hO.exceptBind (only_recipientKey hO _ _) fun pk => hO.exceptBind_of_run
      (only_sealFor (fun _ => hnone rfl) (fun _ => hnone rfl) _ _ _ _)
      fun sealed tr hbox => hO.exceptBind_of_run (only_resolveSignature hO _ _)
      fun signature tr' hsig => ?_
    unfold Ask.answerSeal
    split
    · exact always_exceptPure hO _
    · refine hO.exceptBind (only_attempt fun x id a ha => ?_) fun x => always_exceptPure hO _
      cases ha
      refine hseal _ _ _ (sealFor_ok hbox) fun svc hsvc => ?_
      rw [hsvc] at hsig
      exact resolveSignature_ok hsig _ rfl

theorem stores_finish (hp : Handle.parse q.ctTempkey = some e.handle)
    (out : U256 × EncryptionType) :
    Always (Only (StoresOf st q)) (q.finish st.crates st.signer e out).run :=
  only_stored_finish (P := fun a => ∃ handle, States st q handle a) out
    (fun _ hsign => ⟨e.handle, states_decrypted hp hsign⟩)
    fun _ _ _ hbox hsign => ⟨e.handle, states_sealed hp hbox hsign⟩

/-- What a request has stored, at any moment, states its result. -/
theorem stores_serve {req : Request} (hq : req.ask = some q) :
    Always (Only (StoresOf st q)) (serve st req) := by
  have hO := mixes_only (StoresOf st q)
  rw [serve_eq st hq]
  refine hO.bind (hO.exceptBind_of_run ?_ fun e tr hE => hO.exceptBind ?_ fun out =>
    stores_finish (enter_ok hE).1 out) fun r => ?_
  · refine only_enter.mono fun tr h => h.mono fun ev hev => storesOf_of_none ?_
    obtain ⟨o, x⟩ := ev
    rcases hev with rfl | rfl <;> rfl
  · exact only_fetchDecrypt.mono fun tr h => h.mono fun ev hev =>
      storesOf_of_none (stored_of_not_rest hev)
  · rcases r with resp | resp
    · exact hO.pure _
    · exact hO.pure _

/-- Whatever any request of a run stored states the result of that request. -/
theorem states_of_stored {ttl : ℕ} {s₀ : Shared} {c : Config (shared ttl) Request Response}
    (hc : Reachable (serve st) s₀ c) {ev : Entry (shared ttl) Request} (he : ev ∈ c.hist)
    {id : String} {a : Answer} (hs : stored ev.event = some (id, a)) :
    ∃ q handle, ev.job.ask = some q ∧ States st q handle a := by
  have hstores : ∀ req, Always (Only fun e => ∀ id a, stored e = some (id, a) →
      ∃ q handle, req.ask = some q ∧ States st q handle a) (serve st req) := by
    intro req
    rcases hq : req.ask with _ | q
    · refine only_poll hq (fun id x => ?_) fun id x => ?_
      · intro id a ha
        cases ha
      · intro id a ha
        cases ha
    · refine (stores_serve hq).mono fun tr h => h.mono fun e he id a ha => ?_
      obtain ⟨handle, hh⟩ := he id a ha
      exact ⟨q, handle, rfl, hh⟩
  exact hc.entry_always (Q := fun req e => ∀ id a, stored e = some (id, a) →
    ∃ q handle, req.ask = some q ∧ States st q handle a) hstores ev he id a hs

section Polls

variable {ttl : ℕ} {s s' : Shared}

/-- What the result caches hold after an operation they held before it, or it stored it. -/
theorem perform_results {ev : Event sig} (h : s.perform ttl ev.1 ev.2 s') (id : String) :
    (∀ r, s'.v2Cache.find id = some r →
      s.v2Cache.find id = some r ∨ ev = ⟨.v2CachePut id r, ()⟩)
    ∧ ∀ r, s'.v2SealCache.find id = some r →
      s.v2SealCache.find id = some r ∨ ev = ⟨.v2SealCachePut id r, ()⟩ := by
  by_cases ho : touchesResults ev.1 = false
  · obtain ⟨h₁, h₂⟩ := (perform_frame h).2.2 ho
    exact ⟨fun r hr => .inl (h₁ ▸ hr), fun r hr => .inl (h₂ ▸ hr)⟩
  obtain ⟨o, x⟩ := ev
  cases o with
  | v2CachePut id' r' =>
    obtain rfl : s' = _ := h
    refine ⟨fun r hr => ?_, fun r hr => .inl hr⟩
    by_cases hid : id = id'
    · subst hid
      rw [Lru.find_put_self] at hr
      cases hr
      exact .inr rfl
    · exact .inl (Lru.find_of_find_put hid hr)
  | v2CacheGet id' =>
    obtain ⟨-, rfl⟩ := h
    refine ⟨fun r hr => .inl ?_, fun r hr => .inl hr⟩
    simpa [Lru.get] using hr
  | v2SealCachePut id' r' =>
    obtain rfl : s' = _ := h
    refine ⟨fun r hr => .inl hr, fun r hr => ?_⟩
    by_cases hid : id = id'
    · subst hid
      rw [Lru.find_put_self] at hr
      cases hr
      exact .inr rfl
    · exact .inl (Lru.find_of_find_put hid hr)
  | v2SealCacheGet id' =>
    obtain ⟨-, rfl⟩ := h
    refine ⟨fun r hr => .inl hr, fun r hr => .inl ?_⟩
    simpa [Lru.get] using hr
  | _ => exact absurd rfl ho

/-- The process starts with no result to poll. -/
def Shared.NoResults (s : Shared) : Prop := s.v2Cache.entries = [] ∧ s.v2SealCache.entries = []

/-- What can be polled under `id` was stored under it. -/
def ResultsStored (id : String) (s : Shared) (hist : List (Entry (shared ttl) Request)) : Prop :=
  (∀ r, s.v2Cache.find id = some r → ∃ ev ∈ hist, ev.event = ⟨.v2CachePut id r, ()⟩)
  ∧ ∀ r, s.v2SealCache.find id = some r → ∃ ev ∈ hist, ev.event = ⟨.v2SealCachePut id r, ()⟩

theorem results_stored {s₀ : Shared} (h₀ : s₀.NoResults)
    {c : Config (shared ttl) Request Response} (hc : Reachable (serve st) s₀ c) (id : String) :
    ResultsStored id c.state c.hist := by
  refine hc.invariant ?_ ?_ ?_ fun s hist tr ih => ih
  · refine ⟨fun r hr => ?_, fun r hr => ?_⟩
    · rw [Lru.find_of_nil h₀.1] at hr
      cases hr
    · rw [Lru.find_of_nil h₀.2] at hr
      cases hr
  · rintro hist ev ⟨ih₁, ih₂⟩ hp
    obtain ⟨h₁, h₂⟩ := perform_results hp id
    refine ⟨fun r hr => ?_, fun r hr => ?_⟩
    · rcases h₁ r hr with hr | hr
      · obtain ⟨ev', hev', he⟩ := ih₁ r hr
        exact ⟨ev', List.mem_append_left _ hev', he⟩
      · exact ⟨ev, List.mem_append_right _ (List.mem_singleton_self ev), hr⟩
    · rcases h₂ r hr with hr | hr
      · obtain ⟨ev', hev', he⟩ := ih₂ r hr
        exact ⟨ev', List.mem_append_left _ hev', he⟩
      · exact ⟨ev, List.mem_append_right _ (List.mem_singleton_self ev), hr⟩
  · rintro s s' hist ih (⟨now, -⟩ | ⟨task, -⟩)
    · exact ih
    · exact ih

end Polls

/-! ## Every response with a result -/

def Body.polled : Body → Option Answer
  | .v2DecryptStatus r => do
    return ⟨.decrypted (← r.decrypted), ← r.signature, ← r.encryptionType⟩
  | .v2SealOutputStatus r => do
    let s ← r.sealed
    return ⟨.sealed ⟨s.data, s.publicKey, s.nonce⟩, ← r.signature, ← r.encryptionType⟩
  | _ => none

def Request.polls : Request → Option String
  | .v2DecryptStatus id => some id
  | .v2SealoutputStatus id => some id
  | _ => none

/-- The result a 200 to `req` shows: the one `req` polled, or its own. -/
def Response.shown (req : Request) (r : Response) : Option Answer :=
  match req.polls with
  | some _ => if r.status = 200 then r.body.polled else none
  | none => r.answer

section Shown

variable {ttl : ℕ} {s₀ : Shared} {c : Config (shared ttl) Request Response}

/-- `q` is the request an answer shown to `t` is about: `t`'s own, or the one that stored the
answer under the id `t` polls. -/
def Source (c : Config (shared ttl) Request Response) (t : Thread sig Request Response) (q : Ask)
    (a : Answer) : Prop :=
  t.job.ask = some q ∨ ∃ id, t.job.polls = some id ∧ ∃ ev ∈ c.hist, ev.job.ask = some q
    ∧ stored ev.event = some (id, a)

/-- In some run of the service, a finished request shows the answer `a`, about the request `q` with
the handle `handle`. -/
def Shown (st : AppState) (ttl : ℕ) (q : Ask) (handle : Handle) (a : Answer) : Prop :=
  ∃ (s₀ : Shared) (c : Config (shared ttl) Request Response) (pid : ℕ)
    (t : Thread sig Request Response) (resp : Response), s₀.NoResults
      ∧ Reachable (serve st) s₀ c ∧ c.threads pid = some t ∧ t.rest = .pure resp
      ∧ resp.shown t.job = some a ∧ Source c t q a ∧ Handle.parse q.ctTempkey = some handle

/-- A poll answers with what the cache held when it was read. -/
theorem polled_found (h₀ : s₀.NoResults) (hc : Reachable (serve st) s₀ c) {pid : ℕ}
    {t : Thread sig Request Response} (ht : c.threads pid = some t) {ev : Event sig}
    (hev : ev ∈ t.trace) (id : String) :
    (∀ r, ev = ⟨.v2CacheGet id, some r⟩ →
      ∃ ev ∈ c.hist, ev.event = ⟨.v2CachePut id r, ()⟩)
    ∧ ∀ r, ev = ⟨.v2SealCacheGet id, some r⟩ →
      ∃ ev ∈ c.hist, ev.event = ⟨.v2SealCachePut id r, ()⟩ := by
  obtain ⟨entry, hentry, -, -, hp⟩ := hc.performs_trace ht hev
  obtain ⟨h₁, h₂, hsplit⟩ := List.append_of_mem hentry
  obtain ⟨c₁, hc₁, hhist, hstate, -⟩ := hc.before hsplit
  obtain ⟨hr₁, hr₂⟩ := results_stored h₀ hc₁ id
  rw [hstate, hhist] at hr₁ hr₂
  have hmem : ∀ ev ∈ h₁, ev ∈ c.hist := fun ev he => by
    rw [hsplit]
    exact List.mem_append_left _ he
  refine ⟨fun r he => ?_, fun r he => ?_⟩
  · subst he
    obtain ⟨ev, hev, heq⟩ := hr₁ r hp.1.symm
    exact ⟨ev, hmem ev hev, heq⟩
  · subst he
    obtain ⟨ev, hev, heq⟩ := hr₂ r hp.1.symm
    exact ⟨ev, hmem ev hev, heq⟩

theorem ask_of_polls {req : Request} {id : String} (h : req.polls = some id) :
    req.ask = none := by
  cases req with
  | v2DecryptStatus id => rfl
  | v2SealoutputStatus id => rfl
  | _ => simp [Request.polls] at h

/-- What a poll shows was stored under the id it asks for. -/
theorem stored_of_poll (h₀ : s₀.NoResults) (hc : Reachable (serve st) s₀ c) {pid : ℕ}
    {t : Thread sig Request Response} (ht : c.threads pid = some t) {resp : Response}
    (hr : t.rest = .pure resp) {id : String} (hid : t.job.polls = some id) {a : Answer}
    (hs : resp.shown t.job = some a) : ∃ ev ∈ c.hist, stored ev.event = some (id, a) := by
  have hrun := hc.run ht hr
  obtain ⟨job, tr, rest⟩ := t
  cases job with
  | v2DecryptStatus id' =>
    cases hid
    obtain ⟨_ | r, tr', rfl, h'⟩ := run_performBind.1 hrun
    · rw [(run_pure.1 h').2] at hs
      simp [Response.shown, Request.polls, notFoundResponse] at hs
    · rw [(run_pure.1 h').2] at hs
      cases hs
      obtain ⟨ev, hev, he⟩ := (polled_found h₀ hc ht (by simp) id).1 r rfl
      exact ⟨ev, hev, by rw [he]; rfl⟩
  | v2SealoutputStatus id' =>
    cases hid
    obtain ⟨_ | r, tr', rfl, h'⟩ := run_performBind.1 hrun
    · rw [(run_pure.1 h').2] at hs
      simp [Response.shown, Request.polls, notFoundResponse] at hs
    · rw [(run_pure.1 h').2] at hs
      cases hs
      obtain ⟨ev, hev, he⟩ := (polled_found h₀ hc ht (by simp) id).2 r rfl
      exact ⟨ev, hev, by rw [he]; rfl⟩
  | _ => simp [Request.polls] at hid

/-- An answer shown in a run states the result of the request it is about. -/
theorem states_of_source (hc : Reachable (serve st) s₀ c) {pid : ℕ}
    {t : Thread sig Request Response} (ht : c.threads pid = some t) {resp : Response}
    (hr : t.rest = .pure resp) {a : Answer} (hs : resp.shown t.job = some a) {q : Ask}
    (hq : Source c t q a) : ∃ handle, States st q handle a := by
  rcases hq with hq | ⟨id, -, ev, hev, hq, hst⟩
  · have hpolls : t.job.polls = none := by
      rcases hp : t.job.polls with _ | id
      · rfl
      · rw [ask_of_polls hp] at hq
        cases hq
    rw [Response.shown, hpolls] at hs
    obtain ⟨q', handle, hq', hstates⟩ := states_of_answer (hc.run ht hr) hs
    rw [hq] at hq'
    cases hq'
    exact ⟨handle, hstates⟩
  · obtain ⟨q', handle, hq', hstates⟩ := states_of_stored hc hev hst
    rw [hq] at hq'
    cases hq'
    exact ⟨handle, hstates⟩

theorem exists_source (h₀ : s₀.NoResults) (hc : Reachable (serve st) s₀ c) {pid : ℕ}
    {t : Thread sig Request Response} (ht : c.threads pid = some t) {resp : Response}
    (hr : t.rest = .pure resp) {a : Answer} (hs : resp.shown t.job = some a) :
    ∃ q, Source c t q a := by
  rcases hp : t.job.polls with _ | id
  · rw [Response.shown, hp] at hs
    obtain ⟨q, -, hq, -⟩ := states_of_answer (hc.run ht hr) hs
    exact ⟨q, .inl hq⟩
  · obtain ⟨ev, hev, hst⟩ := stored_of_poll h₀ hc ht hr hp hs
    obtain ⟨q, -, hq, -⟩ := states_of_stored hc hev hst
    exact ⟨q, .inr ⟨id, hp, ev, hev, hq, hst⟩⟩

end Shown

/-- Every result shown is signed as the bytes the client puts together from the request it is
about, and over everything that can be shown these bytes determine the kind and the value of the
result, its type, the chain and the handle. -/
theorem shown_statement (st : AppState) (ttl : ℕ) :
    (∀ (s₀ : Shared) (c : Config (shared ttl) Request Response) (pid : ℕ)
      (t : Thread sig Request Response) (resp : Response) (a : Answer), s₀.NoResults →
      Reachable (serve st) s₀ c → c.threads pid = some t → t.rest = .pure resp →
      resp.shown t.job = some a →
      ∃ q handle, Source c t q a ∧ Handle.parse q.ctTempkey = some handle
        ∧ ∀ svc, st.signer = some svc →
          svc.signPrehashToHexWithFormat
            (st.crates.keccak256 (a.preimage q.hostChainId (toBeBytes handle.u256)))
            (parseVFormat q.headers) = .ok a.signature)
    ∧ ∀ (q q' : Ask) (handle handle' : Handle) (a a' : Answer),
      Shown st ttl q handle a → Shown st ttl q' handle' a' →
      a.preimage q.hostChainId (toBeBytes handle.u256)
        = a'.preimage q'.hostChainId (toBeBytes handle'.u256) →
      a.result = a'.result ∧ a.encryptionType = a'.encryptionType
        ∧ q.hostChainId = q'.hostChainId ∧ handle.u256 = handle'.u256 := by
  refine ⟨?_, ?_⟩
  · intro s₀ c pid t resp a h₀ hc ht hr hs
    obtain ⟨q, hq⟩ := exists_source h₀ hc ht hr hs
    obtain ⟨handle, hstates⟩ := states_of_source hc ht hr hs hq
    exact ⟨q, handle, hq, hstates.parsed, hstates.signed⟩
  · rintro q q' handle handle' a a' ⟨s₀, c, pid, t, resp, -, hc, ht, hr, hs, hq, -⟩
      ⟨s₀', c', pid', t', resp', -, hc', ht', hr', hs', hq', -⟩ heq
    obtain ⟨_, hstates⟩ := states_of_source hc ht hr hs hq
    obtain ⟨_, hstates'⟩ := states_of_source hc' ht' hr' hs' hq'
    obtain ⟨ty, hty⟩ := hstates.type
    obtain ⟨ty', hty'⟩ := hstates'.type
    obtain ⟨hresult, htype, hchain, hhandle⟩ :=
      Answer.preimage_inj hty hty' hstates.sized hstates'.sized heq
    exact ⟨hresult, htype, hchain, toBeBytes_inj hhandle⟩

/-- The value 1 of the sample deployment, signed as a boolean of the handle of zeros on chain 1. -/
theorem shown_statement_sample : ∃ (c : Config (shared 10) Request Response)
    (t : Thread sig Request Response), Reachable (serve (sampleState false)) sampleShared c
      ∧ c.threads 0 = some t ∧ ∃ (q : Ask) (handle : Handle),
        Source c t q ⟨.decrypted (toBeBytes 1).1, sampleSignature, 0⟩
        ∧ Signer.signPrehashToHexWithFormat ⟨fun _ => .ok (⟨1, 1⟩, ⟨false, false⟩)⟩
          (sampleCrates.keccak256 (decryptPreimage (toBeBytes 1).1 0 q.hostChainId
            (toBeBytes handle.u256))) (parseVFormat q.headers) = .ok sampleSignature := by
  obtain ⟨s, hs⟩ := sample_performs 10
  obtain ⟨c, hc, -, -, ht⟩ := reachable_run (sample_serve false) hs
  obtain ⟨q, handle, hq, -, hsign⟩ := (shown_statement (sampleState false) 10).1 sampleShared c 0
    _ sampleResponse ⟨.decrypted (toBeBytes 1).1, sampleSignature, 0⟩ ⟨rfl, rfl⟩ hc ht rfl rfl
  exact ⟨c, _, hc, ht, q, handle, hq, hsign _ rfl⟩

end Teecryptor
