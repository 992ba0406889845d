import Teecryptor.Proofs.Decode
import Teecryptor.Proofs.Polling
import Teecryptor.Proofs.Warm

/-!
# From the engine's value to the client

The engine encrypts the value of a handle, stores the ciphertext with ct-server and commits to its
hash in the registry. Behind an enforcing gate, whatever ct-server serves and however requests,
evictions and polls interleave, a result shown for the handle is the engine's value, unless
ct-server came up with other bytes of the same hash than the engine's (`authentic_answers`).
-/

namespace Teecryptor

open Interact Interact.Prog Rust Lwe

/-! ## What the engine stores -/

/-- A modulus of `L` bits that the levels of the key's cleartext space divide. -/
structure DirectDecryptKey.Fits (key : DirectDecryptKey) (L : ℕ) : Prop where
  pos : 1 ≤ L
  lt : L < 64
  dvd : key.space ∣ 2 ^ L

/-- The bytes are read as a boolean's block that encrypts `m`. -/
def StoredBool (T : Tfhe) (key : DirectDecryptKey) (m : ℕ) (data : List UInt8) : Prop :=
  ∃ L block, key.Fits L ∧ Encrypts T key L m block
    ∧ toMirror T T.bincodeBool .bool data = .ok (.modulusSwitched block)

/-- The bytes are read as the blocks of the digits `ds`. -/
def StoredUint (T : Tfhe) (key : DirectDecryptKey) (ty : EncryptionType) (ds : List ℕ)
    (data : List UInt8) : Prop :=
  ∃ L radix, key.Fits L ∧ Blocks T key L ds radix
    ∧ toMirror T T.bincodeUint ty data = .ok (.modulusSwitched radix)

/-- What the engine stores for the value `v` of the type `ty`: the compressed encryption of a bit,
or of the digits of a number, as many as the type has. -/
def Stores (T : Tfhe) (key : DirectDecryptKey) (ty : EncryptionType) (v : U256)
    (data : List UInt8) : Prop :=
  match ty with
  | .bool => ∃ m < 2, v = BitVec.ofNat 256 m ∧ StoredBool T key m data
  | ty => ∃ ds, ds ≠ [] ∧ (∀ d ∈ ds, d < key.messageModulus.toNat)
      ∧ ds.length * key.bits ≤ key.limit ty.bits
      ∧ v = BitVec.ofNat 256 (Nat.ofDigits key.messageModulus.toNat ds) ∧ StoredUint T key ty ds data

section Stored

variable {T : Tfhe} {key : DirectDecryptKey} {v : U256} {data : List UInt8}

theorem decryptBool_stored {m : ℕ} (hk : key.Pairs) (hm : m < 2) (h : StoredBool T key m data) :
    decryptBool T key data = .ok (BitVec.ofNat 256 m) := by
  obtain ⟨L, block, hL, henc, hread⟩ := h
  have htwo : m < key.messageModulus.toNat := lt_of_lt_of_le hm hk.two_le
  have hspace : m < key.space := by
    have := hk.pair_lt_space htwo (Nat.zero_lt_of_lt htwo)
    omega
  unfold decryptBool
  rw [hread]
  simp only [Rust.ofExcept, ok_bind, decodeBlock_eq hk hL.pos hL.lt hL.dvd hspace henc,
    rem_of_pos (Nat.zero_lt_of_lt htwo), Nat.mod_eq_of_lt htwo]
  obtain rfl | rfl : m = 0 ∨ m = 1 := by omega
  · rfl
  · rfl

theorem decryptUint_stored {ty : EncryptionType} {ds : List ℕ} (hk : key.Pairs) (hne : ds ≠ [])
    (hds : ∀ d ∈ ds, d < key.messageModulus.toNat)
    (hle : ds.length * key.bits ≤ key.limit ty.bits) (h : StoredUint T key ty ds data) :
    decryptUint T key ty data ty.bits
      = .ok (BitVec.ofNat 256 (Nat.ofDigits key.messageModulus.toNat ds)) := by
  obtain ⟨L, radix, hL, hblocks, hread⟩ := h
  unfold decryptUint
  rw [hread]
  exact (decodeRadix_digits hk hL.pos hL.lt hL.dvd hne hds hblocks hle).1

/-- What the engine stores decrypts to the value. -/
theorem decryptCompressed_stores {ty : EncryptionType} (hk : key.Pairs)
    (h : Stores T key ty v data) : decryptCompressed T key ty data = .ok v := by
  cases ty with
  | bool =>
    obtain ⟨m, hm, rfl, hs⟩ := h
    exact decryptBool_stored hk hm hs
  | _ =>
    obtain ⟨ds, hne, hds, hle, rfl, hs⟩ := h
    exact decryptUint_stored hk hne hds hle hs

end Stored

/-! ## What a result tells -/

/-- The answer tells the value `v` as a `ty`: in the open, or in a box. -/
def Tells (st : AppState) (v : U256) (ty : EncryptionType) (a : Answer) : Prop :=
  a.encryptionType = ty.toI32 ∧ match a.result with
    | .decrypted b => b = (toBeBytes v).1
    | .sealed s => ∃ pk, SealedFrom st.crates.cryptoBox pk (ty.encode v) s

section Tells

variable {st : AppState} {q : Ask}

/-- In `tr` the request `q` decrypted its handle to the value that `a` tells. -/
def DecryptedBy (st : AppState) (q : Ask) (tr : Trace sig) (a : Answer) : Prop :=
  ∃ handle trF pt ty, Handle.parse q.ctTempkey = some handle
    ∧ Run (fetchDecrypt st handle q.hostChainId q.acp q.api).run trF (.ok (pt, ty))
    ∧ (∀ ev ∈ trF, ev ∈ tr) ∧ Tells st pt ty a

/-- A result that a request answers with is one it decrypted. -/
theorem decrypted_of_answer {req : Request} {tr : Trace sig} {resp : Response} {a : Answer}
    (h : Run (serve st req) tr resp) (ha : resp.answer = some a) :
    ∃ q, req.ask = some q ∧ DecryptedBy st q tr a := by
  obtain ⟨q, e, trE, trF, trZ, ⟨pt, ty⟩, hq, rfl, hE, hF, hZ⟩ := serve_answer h ha
  refine ⟨q, hq, e.handle, trF, pt, ty, (enter_ok hE).1, hF, fun ev hev => by simp [hev], ?_⟩
  rcases hs : e.sealTo with _ | acp
  · obtain ⟨signature, hans, -⟩ := finish_decrypt hs hZ
    rw [hans] at ha
    cases ha
    exact ⟨rfl, rfl⟩
  · obtain ⟨pk, sealed, signature, -, hbox, hans, -⟩ := finish_seal hs hZ
    rw [hans] at ha
    cases ha
    exact ⟨rfl, pk, hbox⟩

end Tells

/-! ## In every run -/

section Runs

variable {st : AppState} {cfg : CommitmentConfig} {ttl : ℕ} {s₀ : Shared}
  {c : Config (shared ttl) Request Response}

/-- In this run the registry answered `hash` for the handle. -/
def CommittedTo (cfg : CommitmentConfig) (c : Config (shared ttl) Request Response) (h : U256)
    (hash : FixedBytes 32) : Prop :=
  ∃ e ∈ c.hist, e.event = ⟨.getCommitment cfg.version (toBeBytes h), .ok hash⟩

/-- A commitment a request obtained, the registry answered for its handle at some moment. -/
theorem read_of_obtained (hv : st.commitmentVerifier = some cfg) (h₀ : s₀.cache.entries = [])
    (hc : Reachable (serve st) s₀ c) {h : U256} {hostChainId : UInt64} {pid : ℕ}
    {hash : CommitHash} (ho : Obtained cfg h hostChainId (c.eventsOf pid) hash) :
    CommittedTo cfg c h hash.1 := by
  rcases ho with hhit | hread
  · obtain ⟨e, he, -, hev⟩ := mem_eventsOf.1 hhit
    have hperf := hc.performs e he
    rw [hev] at hperf
    obtain ⟨entry, hfind, rfl, -, -⟩ := getFromCache_hit hperf
    -- the entry was there when it was hit, so it had been stored before
    obtain ⟨h₁, h₂, hsplit⟩ := List.append_of_mem he
    obtain ⟨c₁, hc₁, hhist, hstate, -⟩ := hc.before hsplit
    rw [← hstate] at hfind
    obtain ⟨-, -, -, -, -, a, ha, -, -, hread⟩ := cached_read (readsBack_serve hv) h₀ hc₁ hfind
    refine ⟨a, ?_, hread⟩
    rw [hsplit]
    exact List.mem_append_left _ (hhist ▸ ha)
  · obtain ⟨e, he, -, hev⟩ := mem_eventsOf.1 hread
    exact ⟨e, he, hev⟩

/-- The registry only ever answered with hashes of what the engine stored: under each, `engine` of
it, which for a handle is an encryption of its value as the type that the handle carries. -/
def Anchored (st : AppState) (cfg : CommitmentConfig) (value : U256 → U256)
    (engine : FixedBytes 32 → List UInt8) (c : Config (shared ttl) Request Response) : Prop :=
  ∀ (h : U256) (hash : CommitHash), CommittedTo cfg c h hash.1 →
    st.crates.keccak256 (engine hash.1) = hash.1
      ∧ ∃ ty, ((handleType (toBeBytes h)).toNat : ℤ) = EncryptionType.toI32 ty
        ∧ Stores st.crates.tfhe st.keys.zone0Direct ty (value h) (engine hash.1)

/-- In this run ct-server served bytes for the handle that hash to a commitment the registry gave
for it, and are not those that the engine stored under that commitment. -/
def Forged (st : AppState) (cfg : CommitmentConfig) (engine : FixedBytes 32 → List UInt8)
    (c : Config (shared ttl) Request Response) (handle : Handle) : Prop :=
  ∃ hash, CommittedTo cfg c handle.u256 hash ∧ ∃ e ∈ c.hist, ∃ reply row,
    e.event = ⟨.getStoredCt handle.asStr, reply⟩
      ∧ readReply st.crates.parseGetCtResponse handle.asStr reply = .ok row
      ∧ st.crates.keccak256 row.data = hash ∧ row.data ≠ engine hash

/-- What a request decrypts is the engine's value, or ct-server forged the row. -/
theorem authentic_fetched (hv : st.commitmentVerifier = some cfg) (henforce : cfg.warnOnly = false)
    (hk : st.keys.zone0Direct.Pairs) (h₀ : s₀.cache.entries = [])
    (hc : Reachable (serve st) s₀ c) {value : U256 → U256} {engine : FixedBytes 32 → List UInt8}
    (hanchored : Anchored st cfg value engine c)
    {handle : Handle} {hostChainId : UInt64} {acp : Option AcpData} {api : ApiVersion}
    {trF : Trace sig} {v : U256} {ty : EncryptionType} {pid : ℕ}
    (hF : Run (fetchDecrypt st handle hostChainId acp api).run trF (.ok (v, ty)))
    (hsub : ∀ ev ∈ trF, ev ∈ c.eventsOf pid) :
    ((handleType (toBeBytes handle.u256)).toNat : ℤ) = EncryptionType.toI32 ty
      ∧ (v = value handle.u256 ∨ Forged st cfg engine c handle) := by
  obtain ⟨row, hS⟩ := fetchDecrypt_served hF
  obtain ⟨-, -, htype, -⟩ := hS.metadata
  refine ⟨htype, ?_⟩
  obtain ⟨hash, hhash, -, ho⟩ := hS.commitment cfg hv henforce
  have hread := read_of_obtained hv h₀ hc (ho.mono hsub)
  obtain ⟨-, ty', htype', hstores⟩ := hanchored handle.u256 hash hread
  obtain rfl : ty = ty' := EncryptionType.toI32_inj (htype.symm.trans htype')
  by_cases hrow : row.data = engine hash.1
  · have hvalue := hS.value
    rw [hrow, decryptCompressed_stores hk hstores] at hvalue
    cases hvalue
    exact .inl rfl
  · obtain ⟨reply, hreply, hrowOf⟩ := hS.row
    obtain ⟨e', he', -, hev⟩ := mem_eventsOf.1 (hsub _ hreply)
    exact .inr ⟨hash.1, hread, e', he', reply, row, hev, hrowOf, hhash, hrow⟩

theorem authentic_of_decrypted (hv : st.commitmentVerifier = some cfg)
    (henforce : cfg.warnOnly = false) (hk : st.keys.zone0Direct.Pairs)
    (h₀ : s₀.cache.entries = []) (hc : Reachable (serve st) s₀ c) {value : U256 → U256}
    {engine : FixedBytes 32 → List UInt8} (hanchored : Anchored st cfg value engine c)
    {q : Ask} {pid : ℕ} {a : Answer} (hd : DecryptedBy st q (c.eventsOf pid) a) :
    ∃ handle ty, Handle.parse q.ctTempkey = some handle
      ∧ ((handleType (toBeBytes handle.u256)).toNat : ℤ) = EncryptionType.toI32 ty
      ∧ (Tells st (value handle.u256) ty a ∨ Forged st cfg engine c handle) := by
  obtain ⟨handle, trF, pt, ty, hparse, hF, hsub, htells⟩ := hd
  obtain ⟨htype, rfl | hforged⟩ := authentic_fetched hv henforce hk h₀ hc hanchored hF hsub
  · exact ⟨handle, ty, hparse, htype, .inl htells⟩
  · exact ⟨handle, ty, hparse, htype, .inr hforged⟩

theorem stores_of_stored {ev : Event sig} {id : String} {a : Answer}
    (h : stored ev = some (id, a)) : ∃ route : V2Route, route.stores ev = some (id, a) := by
  unfold stored at h
  split at h
  · exact ⟨.decrypt, h⟩
  · exact ⟨.sealoutput, h⟩
  · cases h

/-- A result shown, directly or to a poll, is the answer of a request that ran to its end. -/
theorem answered_of_source (hc : Reachable (serve st) s₀ c) {pid : ℕ}
    {t : Thread sig Request Response} (ht : c.threads pid = some t) {resp : Response}
    (hr : t.rest = .pure resp) {a : Answer} (hs : resp.shown t.job = some a) {q : Ask}
    (hq : Source c t q a) : ∃ req pid' resp', req.ask = some q
      ∧ Run (serve st req) (c.eventsOf pid') resp' ∧ resp'.answer = some a := by
  rcases hq with hq | ⟨id, -, e, he, hq, hst⟩
  · have hpolls : t.job.polls = none := by
      rcases hp : t.job.polls with _ | id
      · rfl
      · rw [ask_of_polls hp] at hq
        cases hq
    rw [Response.shown, hpolls] at hs
    exact ⟨t.job, pid, resp, hq, (hc.poolOk.thread pid t ht).trace ▸ hc.run ht hr, hs⟩
  · obtain ⟨p', hsteps⟩ := hc.steps_of_mem he
    obtain ⟨route, hroute⟩ := stores_of_stored hst
    obtain ⟨-, -, resp', hrun, hans, -⟩ :=
      stored_returned hsteps (mem_eventsOf.2 ⟨e, he, rfl, rfl⟩) hroute
    exact ⟨e.job, e.pid, resp', hq, hrun, hans⟩

/-- What a result shown is about was decrypted in the run, for that request. -/
theorem decrypted_of_source (hc : Reachable (serve st) s₀ c) {pid : ℕ}
    {t : Thread sig Request Response} (ht : c.threads pid = some t) {resp : Response}
    (hr : t.rest = .pure resp) {a : Answer} (hs : resp.shown t.job = some a) {q : Ask}
    (hq : Source c t q a) : ∃ pid', DecryptedBy st q (c.eventsOf pid') a := by
  obtain ⟨req, pid', resp', hask, hrun, hans⟩ := answered_of_source hc ht hr hs hq
  obtain ⟨q', hq', hd⟩ := decrypted_of_answer hrun hans
  rw [hask] at hq'
  cases hq'
  exact ⟨pid', hd⟩

end Runs

/-- Behind an enforcing gate over a registry that commits to what the engine stores, every result
shown, directly or to a poll, tells the engine's value of the handle it is about, as the type the
handle carries, and is signed as such, unless ct-server forged the handle's row. -/
theorem authentic_answers (st : AppState) {cfg : CommitmentConfig}
    (hv : st.commitmentVerifier = some cfg) (henforce : cfg.warnOnly = false)
    (hk : st.keys.zone0Direct.Pairs) (value : U256 → U256) (engine : FixedBytes 32 → List UInt8)
    (ttl : ℕ) (s₀ : Shared) (h₀ : s₀.cache.entries = []) (hresults : s₀.NoResults)
    {c : Config (shared ttl) Request Response} (hc : Reachable (serve st) s₀ c)
    (hanchored : Anchored st cfg value engine c) {pid : ℕ} {t : Thread sig Request Response}
    {resp : Response} {a : Answer} (ht : c.threads pid = some t) (hr : t.rest = .pure resp)
    (hs : resp.shown t.job = some a) :
    ∃ q handle ty, Source c t q a ∧ States st q handle a
      ∧ ((handleType (toBeBytes handle.u256)).toNat : ℤ) = EncryptionType.toI32 ty
      ∧ (Tells st (value handle.u256) ty a ∨ Forged st cfg engine c handle) := by
  obtain ⟨q, hq⟩ := exists_source hresults hc ht hr hs
  obtain ⟨handle, hstates⟩ := states_of_source hc ht hr hs hq
  obtain ⟨pid', hd⟩ := decrypted_of_source hc ht hr hs hq
  obtain ⟨handle', ty, hparse, htype, hauth⟩ :=
    authentic_of_decrypted hv henforce hk h₀ hc hanchored hd
  rw [hstates.parsed] at hparse
  cases hparse
  exact ⟨q, handle, ty, hq, hstates, htype, hauth⟩

/-- The block of the sample row encrypts 1 under the empty key, on five bits. -/
theorem sample_row_stores : Stores sampleTfhe sampleKey .bool 1 [] := by
  refine ⟨1, by decide, rfl, 5, sampleBlock, ⟨by decide, by decide, by decide⟩, ?_, rfl⟩
  exact ⟨rfl, rfl, rfl, [1], [], 1, 0, rfl, by decide, rfl, rfl, rfl, by simp, by decide, by decide⟩

/-- The registry of the sample run commits to what the engine stored, which is what ct-server
serves. -/
theorem sample_anchored {c : Config (shared 10) Request Response}
    (hhist : ∀ e ∈ c.hist, ∀ h hash, e.event
      = ⟨.getCommitment (FixedBytes.zero 32) (toBeBytes h), .ok hash⟩ →
      toBeBytes h = toBeBytes sampleHandle.u256 ∧ hash = sampleHash.1) :
    Anchored (sampleState false) ⟨.zero 20, .zero 32, 1, false, 10⟩ (fun _ => 1) (fun _ => [])
      c := by
  rintro h hash ⟨e, he, hev⟩
  obtain ⟨hh, hhash⟩ := hhist e he h hash.1 hev
  refine ⟨hhash.symm, .bool, ?_, sample_row_stores⟩
  rw [hh]
  exact sample_metadata.2.2.1

/-- Nothing was forged where every row served is the sample one. -/
theorem sample_not_forged (cfg : CommitmentConfig) {c : Config (shared 10) Request Response}
    (hhist : ∀ e ∈ c.hist, ∀ s reply, e.event = ⟨.getStoredCt s, reply⟩ →
      s = sampleHandle.asStr ∧ reply = sampleReply) :
    ∀ handle, ¬ Forged (sampleState false) cfg (fun _ => []) c handle := by
  rintro handle ⟨hash, -, e, he, reply, row, hev, hrow, -, hdata⟩
  obtain ⟨hs, rfl⟩ := hhist e he _ _ hev
  rw [hs] at hrow
  obtain rfl : sampleRow = row := Except.ok.inj (sample_row.symm.trans hrow)
  exact hdata rfl

theorem authentic_answers_sample : ∃ (c : Config (shared 10) Request Response)
    (t : Thread sig Request Response) (q : Ask) (handle : Handle) (ty : EncryptionType) (a : Answer),
    Reachable (serve (sampleState false)) sampleShared c ∧ c.threads 0 = some t
      ∧ sampleResponse.shown t.job = some a ∧ Source c t q a
      ∧ States (sampleState false) q handle a ∧ Tells (sampleState false) 1 ty a := by
  obtain ⟨s, hs⟩ := sample_performs 10
  obtain ⟨c, hc, -, hhist, ht⟩ := reachable_run (sample_serve false) hs
  have hmem : ∀ e ∈ c.hist, e.event ∈ (⟨.newUuid, "id"⟩ :: sampleFetch : Trace sig) :=
    fun e he => hhist ▸ List.mem_map_of_mem he
  have hanchored := sample_anchored fun e he h hash hev => by
    simpa [hev, sampleFetch, sampleGates] using hmem e he
  have hforged := sample_not_forged ⟨.zero 20, .zero 32, 1, false, 10⟩
    fun e he s reply hev => by simpa [hev, sampleFetch, sampleGates] using hmem e he
  obtain ⟨q, handle, ty, hq, hstates, -, hauth⟩ :=
    authentic_answers (sampleState false) rfl rfl
      ⟨by decide, by decide, by decide, by decide, by decide⟩ (fun _ => 1) (fun _ => []) 10
      sampleShared rfl ⟨rfl, rfl⟩ hc hanchored ht rfl rfl
  exact ⟨c, _, q, handle, ty, _, hc, ht, rfl, hq, hstates,
    hauth.resolve_right (hforged handle)⟩

end Teecryptor
