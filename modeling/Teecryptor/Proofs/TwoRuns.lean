import Teecryptor.Proofs.Statements

/-!
# What two runs of one request have in common

A request is served twice, in worlds that differ in what is not the caller's. What ct-server
serves cannot choose the type of an answer, nor its value under an enforced commitment. What a
request that the ACL refuses is answered is the ACL's alone.
-/

namespace Teecryptor

open Interact Interact.Prog Rust

variable {st : AppState} {q : Ask} {tr : Trace sig}

/-- In `tr` the request decrypted its handle to `pt`, of type `ty`. -/
def Decrypted (st : AppState) (q : Ask) (tr : Trace sig) (pt : U256) (ty : EncryptionType) :
    Prop :=
  ∃ e trE trF trZ, tr = trE ++ (trF ++ trZ) ∧ Run q.enter.run trE (.ok e)
    ∧ Run (fetchDecrypt st e.handle q.hostChainId q.acp q.api).run trF (.ok (pt, ty))

theorem judgedHash_around {trE trF trZ : Trace sig} (hE : hashes trE = []) (hZ : hashes trZ = []) :
    judgedHash (trE ++ (trF ++ trZ)) = judgedHash trF := by
  rw [judgedHash, hashes_append, hashes_append, hE, hZ, List.nil_append, List.append_nil]
  rfl

/-- What an answered request decrypted, and what that rests on. -/
theorem answer_served {req : Request} {resp : Response} {a : Answer}
    (h : Run (serve st req) tr resp) (ha : resp.answer = some a) :
    ∃ q handle pt ty ct, req.ask = some q ∧ Handle.parse q.ctTempkey = some handle
      ∧ Decrypted st q tr pt ty ∧ a.encryptionType = ty.toI32
      ∧ (q.seals = false → a.result = .decrypted (toBeBytes pt).1)
      ∧ MetadataOk handle ct ty ∧ ServedBy st handle tr ct
      ∧ decryptCompressed st.crates.tfhe st.keys.zone0Direct ty ct.data = .ok pt
      ∧ ∀ cfg, st.commitmentVerifier = some cfg → cfg.warnOnly = false →
        judgedHash tr = some (st.crates.keccak256 ct.data) := by
  obtain ⟨q, e, trE, trF, trZ, ⟨pt, ty⟩, hq, rfl, hE, hF, hZ⟩ := serve_answer h ha
  obtain ⟨ct, hS⟩ := fetchDecrypt_served hF
  obtain ⟨hparse, hseal, -⟩ := enter_ok hE
  have hrest : ∀ e : Event sig, Of .rest e → ¬ Of .commitment e := fun e he => he.ne (by decide)
  have hhE : hashes trE = [] := hashes_of_only hrest (rest_enter.run hE)
  have hhZ : hashes trZ = [] := hashes_of_only hrest ((rest_finish _ _ _ _).run hZ)
  have hanswer : a.encryptionType = ty.toI32 ∧
      (q.seals = false → a.result = .decrypted (toBeBytes pt).1) := by
    rcases hs : e.sealTo with _ | acp
    · obtain ⟨signature, hans, -⟩ := finish_decrypt hs hZ
      rw [hans] at ha
      cases ha
      exact ⟨rfl, fun _ => rfl⟩
    · obtain ⟨pk, sealed, signature, -, -, hans, -⟩ := finish_seal hs hZ
      rw [hans] at ha
      cases ha
      refine ⟨rfl, fun hseals => ?_⟩
      rw [hs, hseals] at hseal
      cases hseal
  refine ⟨q, e.handle, pt, ty, ct, hq, hparse, ⟨e, trE, trF, trZ, rfl, hE, hF⟩, hanswer.1,
    hanswer.2, hS.metadata, ?_, hS.value, ?_⟩
  · obtain ⟨reply, hmem, hread⟩ := hS.row
    exact ⟨reply, List.mem_append_right _ (List.mem_append_left _ hmem), hread⟩
  · intro cfg hv hw
    obtain ⟨hash, he, hj, -⟩ := hS.commitment cfg hv hw
    rw [judgedHash_around hhE hhZ, hj, he]

/-- Two answers to one request have the type its handle names, and under an enforced commitment
that was the same for both they have the same value: ct-server chooses neither. -/
theorem answers_agree (st : AppState) (req : Request) {tr tr' : Trace sig} {resp resp' : Response}
    {a a' : Answer} (h : Run (serve st req) tr resp) (h' : Run (serve st req) tr' resp')
    (ha : resp.answer = some a) (ha' : resp'.answer = some a') :
    ∃ q handle, req.ask = some q ∧ Handle.parse q.ctTempkey = some handle
      ∧ a.encryptionType = (handleType (toBeBytes handle.u256)).toNat
      ∧ a'.encryptionType = (handleType (toBeBytes handle.u256)).toNat
      ∧ ∀ cfg, st.commitmentVerifier = some cfg → cfg.warnOnly = false →
        judgedHash tr = judgedHash tr' →
        (∀ ct ct', ServedBy st handle tr ct → ServedBy st handle tr' ct' →
          st.crates.keccak256 ct.data = st.crates.keccak256 ct'.data → ct.data = ct'.data) →
        ∃ pt ty, Decrypted st q tr pt ty ∧ Decrypted st q tr' pt ty
          ∧ (q.seals = false → a.result = .decrypted (toBeBytes pt).1 ∧ a'.result = a.result
            ∧ a'.preimage q.hostChainId (toBeBytes handle.u256)
              = a.preimage q.hostChainId (toBeBytes handle.u256)) := by
  obtain ⟨q, handle, pt, ty, ct, hq, hp, hd, hty, hres, hm, hct, hval, hj⟩ := answer_served h ha
  obtain ⟨q', handle', pt', ty', ct', hq', hp', hd', hty', hres', hm', hct', hval', hj'⟩ :=
    answer_served h' ha'
  obtain rfl : q = q' := Option.some.inj (hq.symm.trans hq')
  obtain rfl : handle = handle' := Option.some.inj (hp.symm.trans hp')
  -- the type is the handle's on both sides
  obtain ⟨-, -, htype, -⟩ := hm
  obtain ⟨-, -, htype', -⟩ := hm'
  obtain rfl : ty = ty' := EncryptionType.toI32_inj (htype.symm.trans htype')
  refine ⟨q, handle, hq, hp, by rw [hty, htype], by rw [hty', htype], ?_⟩
  intro cfg hv hw hsame hinj
  have hhash : st.crates.keccak256 ct.data = st.crates.keccak256 ct'.data := by
    have := (hj cfg hv hw).symm.trans (hsame.trans (hj' cfg hv hw))
    exact Option.some.inj this
  have hdata : ct.data = ct'.data := hinj ct ct' hct hct' hhash
  obtain rfl : pt = pt' := by
    rw [hdata, hval'] at hval
    exact (Except.ok.inj hval).symm
  refine ⟨pt, ty, hd, hd', fun hs => ?_⟩
  have hr : a'.result = a.result := by rw [hres hs, hres' hs]
  refine ⟨hres hs, hr, ?_⟩
  simp only [Answer.preimage, hr, hty, hty']

/-- Gates that find the commitment in the cache. -/
def cachedGates : Trace sig :=
  [⟨.getFromCache (1, sampleHandle.u256), some sampleHash⟩,
    ⟨.isPubliclyAllowed sampleChain sampleHandle.u256, .ok true⟩]

/-- The sample's row, sent with its length and in two pieces. -/
def piecewiseReply : HttpReply := .response 200 (some 2) [[123], [125]] none

theorem piecewise_row : readReply sampleCrates.parseGetCtResponse sampleHandle.asStr piecewiseReply
    = .ok sampleRow := by
  have hread : readChunks none [] [[123], [125]] = .ok [123, 125] := by decide
  simp only [readReply, piecewiseReply, hread]
  exact sample_row

theorem cached_serve (warnOnly : Bool) :
    Run (serve (sampleState warnOnly) (sampleRequest 1))
      (⟨.newUuid, "id"⟩ :: sampleFetched cachedGates piecewiseReply) sampleResponse := by
  refine sample_answer (sample_fetched ?_ (sample_integrity warnOnly true .v1) piecewise_row)
  refine run_gates.2 ⟨[⟨.isPubliclyAllowed sampleChain sampleHandle.u256, .ok true⟩], [_], none, _,
    .right (.left .nil), ?_, ?_, rfl⟩
  · refine run_enforceAcp.2 (.inl ⟨rfl, ?_⟩)
    exact run_attemptBind.2 ⟨.ok true, [], rfl, run_checkAllowed_ok.2 ⟨rfl, rfl⟩⟩
  · refine run_enforceCommitment.2 (.inl ⟨_, rfl, ?_⟩)
    exact (run_fetchCommitment _ _ _).2 (.inl ⟨sampleHash, rfl, rfl⟩)

/-- One request is served from the registry, the other from the cache and by another response of
ct-server. -/
theorem answers_agree_sample : ∃ pt ty,
    Decrypted (sampleState false) (sampleAsk 1) (⟨.newUuid, "id"⟩ :: sampleFetch) pt ty
      ∧ Decrypted (sampleState false) (sampleAsk 1)
        (⟨.newUuid, "id"⟩ :: sampleFetched cachedGates piecewiseReply) pt ty
      ∧ (⟨.decrypted (toBeBytes 1).1, sampleSignature, 0⟩ : Answer).result
        = .decrypted (toBeBytes pt).1 := by
  obtain ⟨q, handle, hq, hp, -, -, hagree⟩ := answers_agree (sampleState false) (sampleRequest 1)
    (sample_serve false) (cached_serve false) rfl rfl
  obtain rfl : sampleAsk 1 = q := Option.some.inj hq
  obtain rfl : sampleHandle = handle := Option.some.inj (sample_parse.symm.trans hp)
  have hrow : ∀ ct, ServedBy (sampleState false) sampleHandle (⟨.newUuid, "id"⟩ :: sampleFetch) ct →
      ct = sampleRow := by
    rintro ct ⟨reply, hmem, hread⟩
    obtain rfl : reply = sampleReply := by
      simpa [sampleFetch, sampleGates] using hmem
    exact Except.ok.inj (hread.symm.trans sample_row)
  have hrow' : ∀ ct, ServedBy (sampleState false) sampleHandle
      (⟨.newUuid, "id"⟩ :: sampleFetched cachedGates piecewiseReply) ct → ct = sampleRow := by
    rintro ct ⟨reply, hmem, hread⟩
    obtain rfl : reply = piecewiseReply := by
      simpa [sampleFetched, cachedGates] using hmem
    exact Except.ok.inj (hread.symm.trans piecewise_row)
  obtain ⟨pt, ty, hd, hd', hval⟩ := hagree _ rfl rfl rfl
    fun ct ct' hct hct' _ => by rw [hrow ct hct, hrow' ct' hct']
  exact ⟨pt, ty, hd, hd', (hval rfl).1⟩

/-! ## A request the ACL refuses -/

section Linear

variable {ε α : Type}

theorem linear_attempt (o : Op) : Linear (attempt o : Attempt ε o.Ans).run :=
  Linear.lift (S := sig) (Linear.call (S := sig) o)

theorem linear_ofExec (e : Exec ε α) : Linear (Attempt.ofExec e).run := by
  rcases e with (x | p) | a
  · exact .pure _
  · exact (linear_attempt _).exceptBind fun x => x.elim
  · exact .pure _

theorem linear_checkAllowed (cfg : ChainConfig) (x : RpcResult Bool) :
    Linear (checkAllowed cfg x).run := by
  rcases x with (_ | _) | e | _
  · exact .pure _
  · exact .pure _
  · exact .pure _
  · exact .pure _

/-- The ACL check asks one question at most, and its answer decides the check. -/
theorem linear_verifyAcp (crates : Crates) (cfg : ChainsVerifierConfig) (handle : U256)
    (hostChainId : UInt64) (acp : Option AcpData) :
    Linear (verifyAcp crates cfg handle hostChainId acp).run := by
  rcases acp with _ | acp
  · simp only [verifyAcp, verifyPubliclyAllowed]
    split
    · exact .pure _
    · exact (linear_attempt _).exceptBind fun x => linear_checkAllowed _ x
  · simp only [verifyAcp, verifyViaTaskmanager]
    split
    · exact .pure _
    · exact (linear_ofExec _).exceptBind fun permission =>
        (linear_attempt _).exceptBind fun x => linear_checkAllowed _ x

end Linear

section Refused

variable {handle : Handle} {hostChainId : UInt64} {acp : Option AcpData} {api : ApiVersion}

/-- The events of a request that belong to the part `p`. -/
def eventsIn (p : Part) (tr : Trace sig) : Trace sig := tr.filter fun e => decide (Of p e)

theorem eventsIn_append (p : Part) (tr tr' : Trace sig) :
    eventsIn p (tr ++ tr') = eventsIn p tr ++ eventsIn p tr' := List.filter_append _ _

theorem eventsIn_cons_of_not {p : Part} {e : Event sig} (h : ¬ Of p e) (tr : Trace sig) :
    eventsIn p (e :: tr) = eventsIn p tr := List.filter_cons_of_neg (by simpa using h)

theorem eventsIn_of_only {p : Part} {tr : Trace sig} (h : Only (Of p) tr) : eventsIn p tr = tr :=
  List.filter_eq_self.2 fun e he => decide_eq_true (h e he)

theorem eventsIn_nil {p : Part} {P : Event sig → Prop} (hP : ∀ e, P e → ¬ Of p e)
    {tr : Trace sig} (h : Only P tr) : eventsIn p tr = [] :=
  List.filter_eq_nil_iff.2 fun e he => by simpa using hP e (h e he)

/-- The request touched neither ct-server nor the decryption. -/
def Untouched (tr : Trace sig) : Prop := Only (fun e => ¬ Of .ctServer e ∧ ¬ Of .decryption e) tr

theorem Untouched.append {tr tr' : Trace sig} (h : Untouched tr) (h' : Untouched tr') :
    Untouched (tr ++ tr') := fun e he => (List.mem_append.1 he).elim (h e) (h' e)

theorem untouched_of_only {p : Part} (h₁ : p ≠ .ctServer) (h₂ : p ≠ .decryption) {tr : Trace sig}
    (h : Only (Of p) tr) : Untouched tr := h.mono fun _ he => ⟨he.ne h₁, he.ne h₂⟩

theorem gates_acl {r : Except Response (Option FetchedCommitment)}
    (h : Run (gates st handle hostChainId acp api).run tr r) :
    ∃ a, Run (acpGate st handle hostChainId acp api) (eventsIn .acl tr) a
      ∧ ∀ resp, a = some resp → r = .error resp ∧ Untouched tr := by
  obtain ⟨trA, trC, a, c, hs, hA, hC, rfl⟩ := run_gates.1 h
  have hoA := only_acpGate.run hA
  have hoC := only_commitmentGate.run hC
  have hfilter : eventsIn .acl tr = trA := by
    have hsh : Shuffle (eventsIn .acl trA) (eventsIn .acl trC) (eventsIn .acl tr) := hs.filter _
    rw [eventsIn_of_only hoA, eventsIn_nil (fun e he => he.ne (by decide)) hoC] at hsh
    exact hsh.eq_of_right_nil
  refine ⟨a, hfilter.symm ▸ hA, ?_⟩
  rintro resp rfl
  refine ⟨rfl, fun e he => ?_⟩
  rcases hs.mem.1 he with he | he
  · exact untouched_of_only (by decide) (by decide) hoA e he
  · exact untouched_of_only (by decide) (by decide) hoC e he

theorem openRow_acl {expected : Option FetchedCommitment}
    {r : Except Response (U256 × EncryptionType)}
    (h : Run (openRow st handle hostChainId api expected).run tr r) : eventsIn .acl tr = [] := by
  obtain ⟨reply, tr', rfl, h'⟩ := run_openRow.1 h
  have hct : Of .ctServer (⟨.getStoredCt handle.asStr, reply⟩ : Event sig) := rfl
  rw [eventsIn_cons_of_not (hct.ne (by decide))]
  rcases h' with ⟨resp, -, rfl, -⟩ | ⟨ct, -, h'⟩
  · rfl
  have hI : ∀ {tr : Trace sig}, Only (Of .commitment) tr → eventsIn .acl tr = [] :=
    eventsIn_nil fun e he => he.ne (by decide)
  rcases run_exceptBind.1 h' with ⟨_, -, hI'⟩ | ⟨trI, trD, ⟨⟩, rfl, hI', hD⟩
  · exact hI ((only_integrityGate _ _).run hI')
  · rw [eventsIn_append, hI ((only_integrityGate _ _).run hI'),
      eventsIn_nil (fun e he => he.ne (by decide)) ((only_decryptServed ct).run hD)]
    rfl

/-- An admitted request asks the ACL what its gate asks, and stops with what the gate refuses. -/
theorem fetchDecrypt_acl {r : Except Response (U256 × EncryptionType)}
    (h : Run (fetchDecrypt st handle hostChainId acp api).run tr r)
    (hpermit : (⟨.tryAdmit, true⟩ : Event sig) ∈ tr) :
    ∃ a, Run (acpGate st handle hostChainId acp api) (eventsIn .acl tr) a
      ∧ ∀ resp, a = some resp → r = .error resp ∧ Untouched tr := by
  have hadm : Of .admission (⟨.tryAdmit, true⟩ : Event sig) := rfl
  have hdrop : Of .admission (⟨.dropAdmit, ()⟩ : Event sig) := rfl
  rcases run_fetchDecrypt.1 h with ⟨rfl, -⟩ | ⟨tr', rfl, h'⟩
  · simp at hpermit
  have houter : eventsIn .acl (⟨.tryAdmit, true⟩ :: (tr' ++ [⟨.dropAdmit, ()⟩]))
      = eventsIn .acl tr' := by
    rw [eventsIn_cons_of_not (hadm.ne (by decide)), eventsIn_append,
      eventsIn_cons_of_not (hdrop.ne (by decide))]
    exact List.append_nil _
  rw [houter]
  rcases run_exceptBind.1 h' with ⟨e, rfl, hG⟩ | ⟨trG, trO, expected, rfl, hG, hO⟩
  · obtain ⟨a, hA, hstop⟩ := gates_acl hG
    refine ⟨a, hA, fun resp ha => ?_⟩
    obtain ⟨he, hu⟩ := hstop resp ha
    cases he
    refine ⟨rfl, fun ev hev => ?_⟩
    rcases List.mem_cons.1 hev with rfl | hev
    · exact ⟨hadm.ne (by decide), hadm.ne (by decide)⟩
    · rcases List.mem_append.1 hev with hev | hev
      · exact hu ev hev
      · rw [List.mem_singleton.1 hev]
        exact ⟨hdrop.ne (by decide), hdrop.ne (by decide)⟩
  · obtain ⟨a, hA, hstop⟩ := gates_acl hG
    refine ⟨a, ?_, fun resp ha => ?_⟩
    · rw [eventsIn_append, openRow_acl hO, List.append_nil]
      exact hA
    · cases (hstop resp ha).1

/-- The same of a whole request. -/
theorem serve_acl {req : Request} (hq : req.ask = some q) {resp : Response}
    (h : Run (serve st req) tr resp) (hpermit : (⟨.tryAdmit, true⟩ : Event sig) ∈ tr) :
    ∃ handle a, Handle.parse q.ctTempkey = some handle
      ∧ Run (acpGate st handle q.hostChainId q.acp q.api) (eventsIn .acl tr) a
      ∧ ∀ r, a = some r → resp = r ∧ Untouched tr := by
  have hrest : ∀ {tr : Trace sig}, Only (Of .rest) tr →
      (⟨.tryAdmit, true⟩ : Event sig) ∉ tr ∧ eventsIn .acl tr = [] ∧ Untouched tr :=
    fun h => ⟨fun hm => absurd (h _ hm) (by decide), eventsIn_nil (fun e he => he.ne (by decide)) h,
      untouched_of_only (by decide) (by decide) h⟩
  rcases (run_serve hq).1 h with h | ⟨trE, tr', e, rfl, hE, h'⟩
  · exact absurd hpermit (hrest (rest_enter.run h)).1
  obtain ⟨hnE, hfE, huE⟩ := hrest (rest_enter.run hE)
  have hpermit' : (⟨.tryAdmit, true⟩ : Event sig) ∈ tr' :=
    (List.mem_append.1 hpermit).resolve_left hnE
  rw [eventsIn_append, hfE, List.nil_append]
  rcases h' with hF | ⟨trF, trZ, out, rfl, hF, hZ⟩
  · obtain ⟨a, hA, hstop⟩ := fetchDecrypt_acl hF hpermit'
    refine ⟨e.handle, a, (enter_ok hE).1, hA, fun r hr => ?_⟩
    obtain ⟨he, hu⟩ := hstop r hr
    cases he
    exact ⟨rfl, huE.append hu⟩
  · obtain ⟨hnZ, hfZ, -⟩ : (⟨.tryAdmit, true⟩ : Event sig) ∉ trZ ∧ eventsIn .acl trZ = []
        ∧ Untouched trZ := by
      rcases hZ with hZ | hZ
      · exact hrest ((rest_finish _ _ _ _).run hZ)
      · exact hrest ((rest_finish _ _ _ _).run hZ)
    obtain ⟨a, hA, hstop⟩ := fetchDecrypt_acl hF ((List.mem_append.1 hpermit').resolve_right hnZ)
    refine ⟨e.handle, a, (enter_ok hE).1, ?_, fun r hr => ?_⟩
    · rw [eventsIn_append, hfZ, List.append_nil]
      exact hA
    · cases (hstop r hr).1

/-- A request whose ACL check fails is answered by the ACL gate alone. -/
theorem serve_refused {req : Request} (hq : req.ask = some q) {cfg : ChainsVerifierConfig}
    (hv : st.acpVerifier = some cfg) {resp : Response} (h : Run (serve st req) tr resp)
    (hpermit : (⟨.tryAdmit, true⟩ : Event sig) ∈ tr) (hp : Handle.parse q.ctTempkey = some handle)
    {err : AcpError}
    (herr : Run (verifyAcp st.crates cfg handle.u256 q.hostChainId q.acp).run (eventsIn .acl tr)
      (.error err)) :
    resp = acpResponse q.api q.acp.isSome err ∧ Untouched tr := by
  obtain ⟨handle', a, hp', hA, hstop⟩ := serve_acl hq h hpermit
  obtain rfl : handle = handle' := Option.some.inj (hp.symm.trans hp')
  simp only [acpGate, hv] at hA
  have hlin := linear_verifyAcp st.crates cfg handle.u256 q.hostChainId q.acp
  rcases run_enforceAcp.1 hA with ⟨-, hok⟩ | ⟨err', rfl, herr'⟩
  · cases hlin.run_unique herr hok
  · cases hlin.run_unique herr herr'
    exact hstop _ rfl

theorem acpResponse_ne_pending (presented : Bool) (err : AcpError) :
    acpResponse api presented err ≠ api.retryable .commitmentPending := by
  cases err <;> cases presented <;> cases api <;>
    simp [acpResponse, ApiVersion.retryable, ApiVersion.err, retryable204, RetryReason.v1Status]

end Refused

/-- Two worlds with the same ACL, whose answers fail a request's check, answer it with the ACL
gate's response and nothing else, whatever the registry, the commitment cache and mode, ct-server
and the key are in each: neither ct-server nor the decryption is reached. -/
theorem refused_alike (st st' : AppState) {cfg : ChainsVerifierConfig}
    (hv : st.acpVerifier = some cfg) (hv' : st'.acpVerifier = some cfg)
    (hparse : st'.crates.parseAddress = st.crates.parseAddress) {req : Request} {q : Ask}
    (hq : req.ask = some q) {handle : Handle} (hp : Handle.parse q.ctTempkey = some handle)
    {tr tr' : Trace sig} {resp resp' : Response} (h : Run (serve st req) tr resp)
    (h' : Run (serve st' req) tr' resp') (hpermit : (⟨.tryAdmit, true⟩ : Event sig) ∈ tr)
    (hpermit' : (⟨.tryAdmit, true⟩ : Event sig) ∈ tr')
    (hacl : eventsIn .acl tr' = eventsIn .acl tr) {err : AcpError}
    (herr : Run (verifyAcp st.crates cfg handle.u256 q.hostChainId q.acp).run (eventsIn .acl tr)
      (.error err)) :
    resp = acpResponse q.api q.acp.isSome err ∧ resp' = resp
      ∧ resp ≠ q.api.retryable .commitmentPending
      ∧ (∀ e ∈ tr ++ tr', ¬ Of .ctServer e ∧ ¬ Of .decryption e) := by
  have hverify : verifyAcp st'.crates cfg handle.u256 q.hostChainId q.acp
      = verifyAcp st.crates cfg handle.u256 q.hostChainId q.acp := by
    simp only [verifyAcp, hparse]
  obtain ⟨hr, hu⟩ := serve_refused hq hv h hpermit hp herr
  obtain ⟨hr', hu'⟩ := serve_refused hq hv' h' hpermit' hp (by rwa [hverify, hacl])
  refine ⟨hr, hr'.trans hr.symm, ?_, hu.append hu'⟩
  rw [hr]
  exact acpResponse_ne_pending _ _

/-- A request on a chain that is not configured, whose commitment is read and cached meanwhile. -/
def sampleRefused : Trace sig :=
  [⟨.newUuid, "id"⟩, ⟨.tryAdmit, true⟩, ⟨.getFromCache (2, sampleHandle.u256), none⟩,
    ⟨.getCommitment (.zero 32) (toBeBytes sampleHandle.u256), .ok sampleHash.1⟩,
    ⟨.putInCache (2, sampleHandle.u256) sampleHash, ()⟩, ⟨.dropAdmit, ()⟩]

theorem sample_refused (warnOnly : Bool) :
    Run (serve (sampleState warnOnly) (sampleRequest 2)) sampleRefused
      (ApiVersion.v1.err 400 "unknown_chain") := by
  refine (run_serve (q := sampleAsk 2) rfl).2 (.inr ⟨[⟨.newUuid, "id"⟩], sampleRefused.tail, _, rfl,
    sample_enter 2, .inl (run_fetchDecrypt.2 (.inr ⟨(sampleRefused.drop 2).dropLast, rfl,
      run_exceptBind.2 (.inl ⟨_, rfl, ?_⟩)⟩))⟩)
  rw [quiet_plain]
  refine run_gates.2 ⟨[], _, some (ApiVersion.v1.err 400 "unknown_chain"),
    .ok (some ⟨sampleHash, false⟩), .right_nil _, ?_, ?_, rfl⟩
  · exact run_enforceAcp.2 (.inr ⟨.unknownChain 2, rfl, run_throw.2 ⟨rfl, rfl⟩⟩)
  · refine run_enforceCommitment.2 (.inl ⟨_, rfl, ?_⟩)
    refine (run_fetchCommitment _ _ _).2 (.inr ⟨.ok sampleHash, _, rfl, rfl, ?_⟩)
    exact (run_refreshCommitment _ _ _).2 (.inl ⟨sampleHash, rfl, rfl⟩)

theorem refused_alike_sample : ApiVersion.v1.err 400 "unknown_chain"
      ≠ ApiVersion.v1.retryable .commitmentPending
    ∧ ∀ e ∈ sampleRefused ++ sampleRefused, ¬ Of .ctServer e ∧ ¬ Of .decryption e := by
  have herr : Run (verifyAcp sampleCrates ⟨fun chain => if chain = 1 then some sampleChain else none⟩
      sampleHandle.u256 2 none).run (eventsIn .acl sampleRefused) (.error (.unknownChain 2)) :=
    run_throw.2 ⟨rfl, rfl⟩
  have hq : (sampleRequest 2).ask = some (sampleAsk 2) := rfl
  obtain ⟨-, -, hne, hu⟩ := refused_alike (sampleState false) (sampleState true) rfl rfl rfl hq
    sample_parse (sample_refused false) (sample_refused true) (by simp [sampleRefused])
    (by simp [sampleRefused]) rfl herr
  exact ⟨hne, hu⟩

end Teecryptor
