import Teecryptor.Proofs.Answers

/-!
# What an answered request rests on

A run of `fetch_decrypt` that ends with a value went through every gate (`fetchDecrypt_served`):
the ACL allowed the request, the decrypted bytes hash to the last commitment the request obtained,
and the row's type and zone are the handle's. `answered_gates` says so of every request answered
with a result, in every interleaving with others.
-/

namespace Teecryptor

open Interact Interact.Prog Rust

/-- The commitment an event brings to the request: a cache hit, or an answer of the registry. -/
def hashOf : Event sig → Option (FixedBytes 32)
  | ⟨.getFromCache _, hit⟩ => hit.map (·.1)
  | ⟨.getCommitment _ _, .ok commit⟩ => some commit
  | _ => none

def hashes (tr : Trace sig) : List (FixedBytes 32) := tr.filterMap hashOf

/-- The commitment a request was judged against: the last one it obtained. -/
def judgedHash (tr : Trace sig) : Option (FixedBytes 32) := (hashes tr).getLast?

theorem hashes_append (tr tr' : Trace sig) : hashes (tr ++ tr') = hashes tr ++ hashes tr' :=
  List.filterMap_append

theorem of_hashOf {e : Event sig} {c : FixedBytes 32} (h : hashOf e = some c) :
    Of .commitment e := by
  unfold hashOf at h
  split at h
  · rfl
  · rfl
  · simp at h

theorem hashes_of_only {P : Event sig → Prop} (hP : ∀ e, P e → ¬ Of .commitment e)
    {tr : Trace sig} (h : Only P tr) : hashes tr = [] := by
  refine List.filterMap_eq_nil_iff.2 fun e he => ?_
  rcases hh : hashOf e with _ | c
  · rfl
  · exact absurd (of_hashOf hh) (hP e (h e he))

section Gates

variable {st : AppState} {handle : Handle} {hostChainId : UInt64} {acp : Option AcpData}
  {api : ApiVersion} {tr : Trace sig}

theorem aclAllowed_mono {parse : AddressParser} {cfg : ChainsVerifierConfig} {h : U256}
    {tr tr' : Trace sig} (hs : ∀ e ∈ tr, e ∈ tr')
    (ha : AclAllowed parse cfg h hostChainId acp tr) :
    AclAllowed parse cfg h hostChainId acp tr' := by
  obtain ⟨chain, hc, ha⟩ := ha
  refine ⟨chain, hc, ?_⟩
  rcases acp with _ | acp
  · exact hs _ ha
  · obtain ⟨permission, hp, ha⟩ := ha
    exact ⟨permission, hp, hs _ ha⟩

theorem acpGate_none {cfg : ChainsVerifierConfig} (hv : st.acpVerifier = some cfg)
    (h : Run (acpGate st handle hostChainId acp api) tr none) :
    AclAllowed st.crates.parseAddress cfg handle.u256 hostChainId acp tr := by
  simp only [acpGate, hv] at h
  rcases run_enforceAcp.1 h with ⟨-, h⟩ | ⟨e, he, -⟩
  · exact aclAllowed_of_verifyAcp h
  · simp at he

/-- In `tr` the request obtained the commitment `hash` for its handle, from the cache or from the
registry. -/
def Obtained (cfg : CommitmentConfig) (handle : U256) (hostChainId : UInt64) (tr : Trace sig)
    (hash : CommitHash) : Prop :=
  ⟨.getFromCache (hostChainId, handle), some hash⟩ ∈ tr
    ∨ ⟨.getCommitment cfg.version (toBeBytes handle), .ok hash.1⟩ ∈ tr

theorem Obtained.mono {cfg : CommitmentConfig} {h : U256} {tr tr' : Trace sig} {hash : CommitHash}
    (hs : ∀ e ∈ tr, e ∈ tr') (ho : Obtained cfg h hostChainId tr hash) :
    Obtained cfg h hostChainId tr' hash :=
  ho.imp (hs _) (hs _)

theorem fetchCommitment_obtained {cfg : CommitmentConfig} {h : U256} {f : FetchedCommitment}
    (hr : Run (fetchCommitment cfg h hostChainId).run tr (.ok f)) :
    hashes tr = [f.hash.1] ∧ Obtained cfg h hostChainId tr f.hash := by
  rcases (run_fetchCommitment cfg h hostChainId).1 hr with ⟨c, hf, rfl⟩ | ⟨r, tr', hf, rfl, hr'⟩
  · cases hf
    exact ⟨rfl, .inl (by simp)⟩
  · rcases (run_refreshCommitment cfg h hostChainId).1 hr' with
      ⟨c, rfl, rfl⟩ | ⟨rfl, -⟩ | ⟨rfl, -⟩ | ⟨e, rfl, -⟩
    · cases hf
      exact ⟨rfl, .inr (by simp)⟩
    · cases hf
    · cases hf
    · cases hf

/-- An enforcing gate passes with the commitment it obtained. -/
theorem commitmentGate_ok {cfg : CommitmentConfig} (hv : st.commitmentVerifier = some cfg)
    (hw : cfg.warnOnly = false) {expected : Option FetchedCommitment}
    (h : Run (commitmentGate st handle hostChainId api).run tr (.ok expected)) :
    ∃ f, expected = some f ∧ hashes tr = [f.hash.1]
      ∧ Obtained cfg handle.u256 hostChainId tr f.hash := by
  simp only [commitmentGate, hv] at h
  rcases run_enforceCommitment.1 h with ⟨f, hf, hr⟩ | ⟨e, tr₁, tr₂, rfl, -, h₂⟩
  · cases hf
    exact ⟨f, rfl, fetchCommitment_obtained hr⟩
  · rcases run_refuse.1 h₂ with ⟨hw', -, -⟩ | ⟨-, hf, -⟩
    · simp [hw] at hw'
    · cases hf

/-- The bytes that pass an enforcing integrity check hash to the commitment obtained last. -/
theorem integrity_ok {cfg : CommitmentConfig} {crates : Crates} {h : U256}
    (hw : cfg.warnOnly = false) {f : FetchedCommitment} {data : List UInt8}
    (hr : Run (enforceCommitmentIntegrity h hostChainId api crates (some cfg) f data).run tr
      (.ok ())) :
    (crates.keccak256 data = f.hash.1 ∧ hashes tr = [])
      ∨ ∃ c : CommitHash, crates.keccak256 data = c.1 ∧ hashes tr = [c.1]
        ∧ Obtained cfg h hostChainId tr c := by
  have hjudge : ∀ {c tr}, Run (judgeCommitment api cfg.warnOnly (crates.keccak256 data) c).run tr
      (.ok ()) → crates.keccak256 data = c.1 ∧ tr = [] := by
    intro c tr hj
    rcases run_judgeCommitment.1 hj with ⟨he, rfl, -⟩ | ⟨-, hj⟩
    · exact ⟨he, rfl⟩
    · rcases run_refuse.1 hj with ⟨hw', -, -⟩ | ⟨-, hf, -⟩
      · simp [hw] at hw'
      · cases hf
  by_cases hm : crates.keccak256 data ≠ f.hash.1 ∧ f.fromCache = true
  · obtain ⟨fresh, tr₁, tr₂, rfl, h₁, h₂⟩ := (run_integrity_reread hm).1 hr
    rcases (run_refreshCommitment cfg h hostChainId).1 h₁ with
      ⟨c, rfl, rfl⟩ | ⟨rfl, rfl⟩ | ⟨rfl, rfl⟩ | ⟨e, rfl, rfl⟩
    · simp only at h₂
      split_ifs at h₂ with hc
      · obtain ⟨-, rfl⟩ := h₂
        exact .inr ⟨c, hc.symm, rfl, .inr (by simp)⟩
      · obtain ⟨he, -⟩ := hjudge h₂
        exact absurd he.symm hc
    · rcases run_refuse.1 h₂ with ⟨hw', -, -⟩ | ⟨-, hf, -⟩
      · simp [hw] at hw'
      · cases hf
    · obtain ⟨tr₃, -, h₃⟩ := h₂
      exact absurd (hjudge h₃).1 hm.1
    · obtain ⟨tr₃, -, h₃⟩ := h₂
      exact absurd (hjudge h₃).1 hm.1
  · rw [integrity_judged hm] at hr
    obtain ⟨he, rfl⟩ := hjudge hr
    exact .inl ⟨he, rfl⟩

end Gates

section Served

variable (st : AppState) (handle : Handle) (hostChainId : UInt64) (acp : Option AcpData)
  (tr : Trace sig)

/-- In `tr` ct-server served the row `ct` for the handle. -/
def ServedBy (ct : FheCiphertext) : Prop :=
  ∃ reply, ⟨.getStoredCt handle.asStr, reply⟩ ∈ tr
    ∧ readReply st.crates.parseGetCtResponse handle.asStr reply = .ok ct

/-- What the value of a successful request rests on, in the events of its trace. -/
structure Served (ct : FheCiphertext) (pt : U256) (ty : EncryptionType) : Prop where
  acl : ∀ cfg, st.acpVerifier = some cfg →
    AclAllowed st.crates.parseAddress cfg handle.u256 hostChainId acp tr
  commitment : ∀ cfg, st.commitmentVerifier = some cfg → cfg.warnOnly = false →
    ∃ hash : CommitHash, st.crates.keccak256 ct.data = hash.1 ∧ judgedHash tr = some hash.1
      ∧ Obtained cfg handle.u256 hostChainId tr hash
  row : ServedBy st handle tr ct
  compact : ct.compact = false
  gzipped : ct.gzipped = true
  metadata : MetadataOk handle ct ty
  value : decryptCompressed st.crates.tfhe st.keys.zone0Direct ty ct.data = .ok pt

variable {st handle hostChainId acp tr}

theorem integrityGate_ok {cfg : CommitmentConfig} {api : ApiVersion}
    (hv : st.commitmentVerifier = some cfg) (hw : cfg.warnOnly = false) {f : FetchedCommitment}
    {data : List UInt8} {tr : Trace sig}
    (h : Run (integrityGate st handle hostChainId api (some f) data).run tr (.ok ())) :
    (st.crates.keccak256 data = f.hash.1 ∧ hashes tr = [])
      ∨ ∃ c : CommitHash, st.crates.keccak256 data = c.1 ∧ hashes tr = [c.1]
        ∧ Obtained cfg handle.u256 hostChainId tr c := by
  simp only [integrityGate, hv] at h
  exact integrity_ok hw h

theorem decryptClosure_eq {ct : FheCiphertext} {ty : EncryptionType} (hg : ct.gzipped = true)
    (hz : ct.securityZone = 0) :
    decryptClosure st ct ty
      = decryptCompressed st.crates.tfhe st.keys.zone0Direct ty ct.data := by
  simp [decryptClosure, hg, KeyStore.directKey, hz]

/-- A request that ends with a value passed every gate. -/
theorem fetchDecrypt_served {api : ApiVersion} {pt : U256} {ty : EncryptionType}
    (h : Run (fetchDecrypt st handle hostChainId acp api).run tr (.ok (pt, ty))) :
    ∃ ct, Served st handle hostChainId acp tr ct pt ty := by
  rcases run_fetchDecrypt.1 h with ⟨-, hr⟩ | ⟨tr', rfl, h'⟩
  · cases hr
  rcases run_exceptBind.1 h' with ⟨_, hr, -⟩ | ⟨trG, trO, expected, rfl, hG, hO⟩
  · cases hr
  obtain ⟨trA, trC, a, c, hs, hA, hC, hr⟩ := run_gates.1 hG
  obtain ⟨rfl, rfl⟩ : a = none ∧ c = .ok expected := by
    rcases a with _ | resp
    · exact ⟨rfl, hr.symm⟩
    · cases hr
  obtain ⟨reply, trR, rfl, ⟨resp, -, -, hr⟩ | ⟨ct, hrow, hR⟩⟩ := run_openRow.1 hO
  · cases hr
  rcases run_exceptBind.1 hR with ⟨_, hr, -⟩ | ⟨trI, trD, ⟨⟩, rfl, hI, hD⟩
  · cases hr
  obtain ⟨hread, hz, hcompact, hgzip⟩ := servedRow_eq_ok.1 hrow
  obtain ⟨hmeta, hclosure, -⟩ := run_decryptServed_ok.1 hD
  have hsA : ∀ e ∈ trA, e ∈ trG := fun e he => hs.mem.2 (.inl he)
  have hsC : ∀ e ∈ trC, e ∈ trG := fun e he => hs.mem.2 (.inr he)
  have hhG : hashes trG = hashes trC := by
    have hA' : hashes trA = [] :=
      hashes_of_only (fun e he => he.ne (by decide)) (only_acpGate.run hA)
    have := hs.filterMap hashOf
    rw [show trA.filterMap hashOf = [] from hA'] at this
    exact this.eq_of_left_nil
  have hhD : hashes trD = [] :=
    hashes_of_only (fun e he => he.ne (by decide)) ((only_decryptServed ct).run hD)
  refine ⟨ct, ?_, ?_, ⟨reply, by simp, hread⟩, hcompact, hgzip, hmeta, ?_⟩
  · intro cfg hv
    exact aclAllowed_mono (fun e he => by simp [hsA e he]) (acpGate_none hv hA)
  · intro cfg hv hw
    obtain ⟨f, rfl, hhC, hobt⟩ := commitmentGate_ok hv hw hC
    -- The admission's and the fetch's events bring no commitment.
    have hall : hashes (⟨.tryAdmit, true⟩ :: ((trG ++ ⟨.getStoredCt handle.asStr, reply⟩ ::
        (trI ++ trD)) ++ [⟨.dropAdmit, ()⟩])) = f.hash.1 :: hashes trI := by
      have hrest : hashes [(⟨.dropAdmit, ()⟩ : Event sig)] = [] := rfl
      show hashes ((trG ++ _ :: (trI ++ trD)) ++ _) = _
      rw [hashes_append, hrest, List.append_nil, hashes_append, hhG, hhC]
      show [f.hash.1] ++ hashes (trI ++ trD) = _
      rw [hashes_append, hhD, List.append_nil]
      rfl
    rcases integrityGate_ok hv hw hI with ⟨he, hhI⟩ | ⟨c, he, hhI, hobt'⟩
    · refine ⟨f.hash, he, ?_, hobt.mono fun e he => by simp [hsC e he]⟩
      rw [judgedHash, hall, hhI]
      rfl
    · refine ⟨c, he, ?_, hobt'.mono fun e he => by simp [he]⟩
      rw [judgedHash, hall, hhI]
      rfl
  · rw [← decryptClosure_eq hgzip hz]
    exact hclosure

end Served

/-- A request answered with a result passed every gate: the ACL of its chain allowed it within the
request, the decrypted bytes hash to a commitment it obtained, and the row they came in has the
form, zone and type that are served for the handle. -/
theorem answered_gates (st : AppState) (ttl : ℕ) (s₀ : Shared)
    {c : Config (shared ttl) Request Response} (hc : Reachable (serve st) s₀ c) {pid : ℕ}
    {t : Thread sig Request Response} {resp : Response} {a : Answer}
    (ht : c.threads pid = some t) (hr : t.rest = .pure resp) (ha : resp.answer = some a) :
    ∃ q handle ct, t.job.ask = some q ∧ Handle.parse q.ctTempkey = some handle
      ∧ (∀ cfg, st.acpVerifier = some cfg →
        AclAllowed st.crates.parseAddress cfg handle.u256 q.hostChainId q.acp t.trace)
      ∧ (∀ cfg, st.commitmentVerifier = some cfg → cfg.warnOnly = false →
        ∃ hash : CommitHash, st.crates.keccak256 ct.data = hash.1
          ∧ Obtained cfg handle.u256 q.hostChainId t.trace hash)
      ∧ ServedBy st handle t.trace ct
      ∧ ct.securityZone = 0 ∧ ct.compact = false ∧ ct.gzipped = true
      ∧ (toBeBytes handle.u256).1.getD 31 0 = 0
      ∧ ((((toBeBytes handle.u256).1.getD 30 0) &&& 0x7f).toNat : ℤ) = ct.encryptionType
      ∧ ct.encryptionType = a.encryptionType := by
  obtain ⟨q, e, trE, trF, trZ, ⟨pt, ty⟩, hq, htr, hE, hF, hZ⟩ := serve_answer (hc.run ht hr) ha
  obtain ⟨ct, hS⟩ := fetchDecrypt_served hF
  have hmem : ∀ ev ∈ trF, ev ∈ t.trace := fun ev hev => by simp [htr, hev]
  obtain ⟨hparse, -⟩ := enter_ok hE
  obtain ⟨hz, hty, hht, hhz⟩ := hS.metadata
  have hout : a.encryptionType = ty.toI32 := by
    rcases hs : e.sealTo with _ | acp
    · obtain ⟨signature, hans, -⟩ := finish_decrypt hs hZ
      rw [hans] at ha
      cases ha
      rfl
    · obtain ⟨pk, sealed, signature, -, -, hans, -⟩ := finish_seal hs hZ
      rw [hans] at ha
      cases ha
      rfl
  refine ⟨q, e.handle, ct, hq, hparse, ?_, ?_, ?_, hz, hS.compact, hS.gzipped, hhz, ?_, ?_⟩
  · intro cfg hv
    exact aclAllowed_mono hmem (hS.acl cfg hv)
  · intro cfg hv hw
    obtain ⟨hash, he, -, ho⟩ := hS.commitment cfg hv hw
    exact ⟨hash, he, ho.mono hmem⟩
  · obtain ⟨reply, hmem', hread⟩ := hS.row
    exact ⟨reply, hmem _ hmem', hread⟩
  · exact hht.trans hty.symm
  · rw [hty, hout]

/-! ## A deployment that serves one row

Both gates are installed and chain 1 is served. Every string hashes to 1, and every body of
ct-server is a row whose boolean is true.
-/

def sampleBlock : BlockMirror :=
  ⟨.classic ⟨⟨[1], 5, 1⟩, 0⟩, 4, 4, .standard .keyswitchBootstrap⟩

def sampleTfhe : Tfhe where
  build := ⟨true⟩
  Ct := Unit
  safeDeserialize := fun _ _ _ => .ok ()
  bincodeSerialize := fun _ => .ok []
  bincodeUint := fun _ => .error "not an integer"
  bincodeBool := fun _ => .ok (.modulusSwitched sampleBlock)
  unpack := fun p => p.packedCoeffs

def sampleKey : DirectDecryptKey := ⟨[], 4, 4, by decide⟩

def sampleCrates : Crates where
  tfhe := sampleTfhe
  keccak256 := fun _ => .ofNat 32 1
  parseAddress := fun _ => .error "invalid string length"
  parseGetCtResponse := fun _ => .ok ⟨String.ofList [], 0, 0, false, true⟩
  cryptoBox := fun plaintext _ _ _ => .ok (List.replicate 16 0 ++ plaintext)

def sampleChain : ChainConfig := ⟨"http://chain", .zero 20, 1⟩

def sampleHash : CommitHash := ⟨.ofNat 32 1, by decide +kernel⟩

def sampleState (warnOnly : Bool) : AppState where
  crates := sampleCrates
  keys := ⟨⟨[]⟩, sampleKey⟩
  acpVerifier := some ⟨fun chain => if chain = 1 then some sampleChain else none⟩
  commitmentVerifier := some ⟨.zero 20, .zero 32, 1, warnOnly, 10⟩
  signer := some ⟨fun _ => .ok (⟨1, 1⟩, ⟨false, false⟩)⟩

def sampleDigits : List Char := List.replicate 64 '0'

def sampleHandle : Handle := .ofDigits sampleDigits (by decide) (by decide)

/-- A public decrypt of the handle of zeros. -/
def sampleRequest (chain : UInt64) : Request :=
  .decrypt none (.ok ⟨String.ofList sampleDigits, chain, none⟩)

def sampleAsk (chain : UInt64) : Ask :=
  ⟨.v1, false, none, String.ofList sampleDigits, chain, none⟩

def sampleReply : HttpReply := .response 200 none [] none

def sampleRow : FheCiphertext := ⟨sampleHandle.asStr, [], 0, 0, false, true⟩

def sampleGates : Trace sig :=
  [⟨.isPubliclyAllowed sampleChain sampleHandle.u256, .ok true⟩,
    ⟨.getFromCache (1, sampleHandle.u256), none⟩,
    ⟨.getCommitment (.zero 32) (toBeBytes sampleHandle.u256), .ok sampleHash.1⟩,
    ⟨.putInCache (1, sampleHandle.u256) sampleHash, ()⟩]

def sampleFetch : Trace sig :=
  ⟨.tryAdmit, true⟩ :: (sampleGates ++ [⟨.getStoredCt sampleHandle.asStr, sampleReply⟩,
    ⟨.acquireDecrypt, ()⟩, ⟨.spawnBlocking, (0 : ℕ)⟩, ⟨.joinBlocking 0, ()⟩])
    ++ [⟨.dropAdmit, ()⟩]

def sampleSignature : String := String.ofList (Bytes.hexEncode (Signature.toBytes ⟨1, 1⟩ ++ [0]))

def sampleResponse : Response :=
  .okJson (.decrypt ⟨(toBeBytes 1).1, sampleSignature, 0, none⟩)

def sampleShared : Shared where
  now := 0
  cache := .empty 1 (by decide)
  v2Cache := .empty 1 (by decide)
  v2SealCache := .empty 1 (by decide)
  admitPermits := 1
  decryptPermits := 1
  running := []
  nextTask := 0

theorem sample_parse : Handle.parse (String.ofList sampleDigits) = some sampleHandle :=
  Handle.parse_of_digits (by simp [handleDigits, stripPrefix, sampleDigits]) _ _

theorem sample_row : readReply sampleCrates.parseGetCtResponse sampleHandle.asStr sampleReply
    = .ok sampleRow := by
  simp [readReply, sampleReply, checkStatus, checkContentLength, readChunks, sampleCrates,
    stripPrefix, sampleRow, Bytes.hexDecode, Bytes.utf8Len, Except.mapError]
  rfl

theorem sample_metadata : MetadataOk sampleHandle sampleRow .bool := by
  refine ⟨rfl, rfl, ?_, ?_⟩
  · decide +kernel
  · decide +kernel

theorem sample_value : decryptCompressed sampleTfhe sampleKey .bool [] = .ok 1 := by
  decide

theorem sample_enter (chain : UInt64) : Run (sampleAsk chain).enter.run [⟨.newUuid, "id"⟩]
    (.ok ⟨"id", "", sampleHandle, none⟩) := by
  refine run_attemptBind.2 ⟨"id", [], rfl, run_exceptBind.2
    (.inr ⟨[], [], sampleHandle, rfl, ?_, run_exceptPure.2 ⟨rfl, rfl⟩⟩)⟩
  simp [parseHandle, sampleAsk, sample_parse, run_pure]

theorem sample_gates (warnOnly : Bool) (api : ApiVersion) :
    Run (gates (sampleState warnOnly) sampleHandle 1 none api).run sampleGates
      (.ok (some ⟨sampleHash, false⟩)) := by
  refine run_gates.2 ⟨[⟨.isPubliclyAllowed sampleChain sampleHandle.u256, .ok true⟩], _, none, _,
    .append _ _, ?_, ?_, rfl⟩
  · refine run_enforceAcp.2 (.inl ⟨rfl, ?_⟩)
    exact run_attemptBind.2 ⟨.ok true, [], rfl, run_checkAllowed_ok.2 ⟨rfl, rfl⟩⟩
  · refine run_enforceCommitment.2 (.inl ⟨_, rfl, ?_⟩)
    refine (run_fetchCommitment _ _ _).2 (.inr ⟨.ok sampleHash, _, rfl, rfl, ?_⟩)
    exact (run_refreshCommitment _ _ _).2 (.inl ⟨sampleHash, rfl, rfl⟩)

/-- What the request does after gates that run as `trG`, when ct-server answers `reply`. -/
def sampleFetched (trG : Trace sig) (reply : HttpReply) : Trace sig :=
  ⟨.tryAdmit, true⟩ :: (trG ++ [⟨.getStoredCt sampleHandle.asStr, reply⟩,
    ⟨.acquireDecrypt, ()⟩, ⟨.spawnBlocking, (0 : ℕ)⟩, ⟨.joinBlocking 0, ()⟩])
    ++ [⟨.dropAdmit, ()⟩]

theorem sample_fetched {warnOnly : Bool} {api : ApiVersion} {trG : Trace sig} {reply : HttpReply}
    {expected : Option FetchedCommitment}
    (hG : Run (gates (sampleState warnOnly) sampleHandle 1 none api).run trG (.ok expected))
    (hI : Run (integrityGate (sampleState warnOnly) sampleHandle 1 api expected []).run [] (.ok ()))
    (hrow : readReply sampleCrates.parseGetCtResponse sampleHandle.asStr reply = .ok sampleRow) :
    Run (fetchDecrypt (sampleState warnOnly) sampleHandle 1 none api).run (sampleFetched trG reply)
      (.ok (1, .bool)) := by
  refine run_fetchDecrypt.2 (.inr ⟨_, rfl, run_exceptBind.2 (.inr ⟨trG, _, _, rfl, hG, ?_⟩)⟩)
  refine run_openRow.2 ⟨reply, _, rfl, .inr
    ⟨sampleRow, servedRow_eq_ok.2 ⟨hrow, rfl, rfl, rfl⟩, ?_⟩⟩
  refine run_exceptBind.2 (.inr ⟨[], _, (), rfl, hI,
    run_decryptServed_ok.2 ⟨sample_metadata, ?_, 0, rfl⟩⟩)
  rw [decryptClosure_eq rfl rfl]
  exact sample_value

/-- The served bytes match the sample commitment. -/
theorem sample_integrity (warnOnly fromCache : Bool) (api : ApiVersion) :
    Run (integrityGate (sampleState warnOnly) sampleHandle 1 api (some ⟨sampleHash, fromCache⟩)
      []).run [] (.ok ()) := by
  simp only [integrityGate, sampleState]
  rw [integrity_judged (by simp [sampleCrates, sampleHash])]
  exact run_judgeCommitment.2 (.inl ⟨rfl, rfl, rfl⟩)

theorem sample_fetch (warnOnly : Bool) (api : ApiVersion) :
    Run (fetchDecrypt (sampleState warnOnly) sampleHandle 1 none api).run sampleFetch
      (.ok (1, .bool)) :=
  sample_fetched (sample_gates warnOnly api) (sample_integrity warnOnly false api) sample_row

theorem sample_sign : signDecrypt sampleCrates.keccak256 ⟨fun _ => .ok (⟨1, 1⟩, ⟨false, false⟩)⟩ 1
    EncryptionType.bool.toI32 1 sampleHandle.asStr .raw = .ok sampleSignature := by
  simp only [signDecrypt, Handle.asStr, sampleHandle.agrees]
  rfl

theorem sample_answer {warnOnly : Bool} {tr : Trace sig}
    (h : Run (fetchDecrypt (sampleState warnOnly) sampleHandle 1 none .v1).run tr (.ok (1, .bool))) :
    Run (serve (sampleState warnOnly) (sampleRequest 1)) (⟨.newUuid, "id"⟩ :: tr)
      sampleResponse := by
  refine (run_serve (q := sampleAsk 1) rfl).2 (.inr ⟨[⟨.newUuid, "id"⟩], tr, _, rfl,
    sample_enter 1, .inr ⟨tr, [], (1, .bool), by simp, h, .inl ?_⟩⟩)
  refine run_exceptBind.2 (.inr ⟨[], [], sampleSignature, rfl, ?_, run_exceptPure.2 ⟨rfl, rfl⟩⟩)
  exact run_resolveSignature (congrArg some sample_sign)

theorem sample_serve (warnOnly : Bool) :
    Run (serve (sampleState warnOnly) (sampleRequest 1)) (⟨.newUuid, "id"⟩ :: sampleFetch)
      sampleResponse := sample_answer (sample_fetch warnOnly .v1)

theorem sample_performs (ttl : ℕ) : ∃ s, (shared ttl).Performs sampleShared
    (⟨.newUuid, "id"⟩ :: sampleFetch) s := by
  refine ⟨_, .step rfl (.step ⟨rfl, rfl⟩ (.step rfl (.step rfl (.step rfl (.step rfl
    (.step rfl (.step ⟨by decide, rfl⟩ (.step ⟨rfl, rfl⟩ (.cons (.single (.finish 0 ?_))
    ⟨?_, rfl⟩ (.step rfl (.nil .refl)))))))))))⟩
  · decide
  · decide

theorem answered_gates_sample : ∃ (c : Config (shared 10) Request Response)
    (t : Thread sig Request Response), Reachable (serve (sampleState false)) sampleShared c
      ∧ c.threads 0 = some t ∧ t.rest = .pure sampleResponse ∧ ∃ q handle ct,
        t.job.ask = some q ∧ ServedBy (sampleState false) handle t.trace ct
          ∧ ct.encryptionType = 0 := by
  obtain ⟨s, hs⟩ := sample_performs 10
  obtain ⟨c, hc, -, -, ht⟩ := reachable_run (sample_serve false) hs
  obtain ⟨q, handle, ct, hq, -, -, -, hrow, -, -, -, -, -, hty⟩ :=
    answered_gates (sampleState false) 10 sampleShared hc ht rfl rfl
  exact ⟨c, _, hc, ht, rfl, q, handle, ct, hq, hrow, hty⟩

end Teecryptor
