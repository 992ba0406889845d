import Teecryptor.Proofs.TwoRuns

/-!
# The service without its commitment gate

A run of a request, with the events of the commitment gate left out, is a run of the request in a
service without that gate: with the same response when the gate is warn-only, and when it enforces
and lets the request reach its decryption (`serve_strip`). Without the gate the answers a request
gets determine its response (`linear_serve`).
-/

namespace Teecryptor

open Interact Interact.Prog Rust

/-- The service with no commitment verifier installed. -/
def AppState.ungated (st : AppState) : AppState := { st with commitmentVerifier := none }

/-- What is left of a trace without the events of the commitment gate. -/
def strip (tr : Trace sig) : Trace sig := tr.filter fun e => decide (¬ Of .commitment e)

theorem strip_append (tr tr' : Trace sig) : strip (tr ++ tr') = strip tr ++ strip tr' :=
  List.filter_append _ _

theorem strip_cons_of_not {e : Event sig} (h : ¬ Of .commitment e) (tr : Trace sig) :
    strip (e :: tr) = e :: strip tr := List.filter_cons_of_pos (by simpa using h)

theorem strip_of_only {P : Event sig → Prop} (hP : ∀ e, P e → ¬ Of .commitment e)
    {tr : Trace sig} (h : Only P tr) : strip tr = tr :=
  List.filter_eq_self.2 fun e he => by simpa using hP e (h e he)

theorem strip_of_part {p : Part} (hp : p ≠ .commitment) {tr : Trace sig} (h : Only (Of p) tr) :
    strip tr = tr := strip_of_only (fun _ he => he.ne hp) h

theorem strip_of_commitment {tr : Trace sig} (h : Only (Of .commitment) tr) : strip tr = [] :=
  List.filter_eq_nil_iff.2 fun e he => by simpa using h e he

variable {st : AppState} {handle : Handle} {hostChainId : UInt64} {acp : Option AcpData}
  {api : ApiVersion} {tr : Trace sig}

/-! ## Warn-only never refuses -/

/-- The installed commitment verifier, if there is one, is warn-only. -/
def AppState.WarnOnly (st : AppState) : Prop :=
  ∀ cfg, st.commitmentVerifier = some cfg → cfg.warnOnly = true

theorem warnOnly_refuse {α : Type} {reason : String} {allowed : α} {resp : Response}
    {r : Except Response α} (h : Run (refuse true reason allowed resp).run tr r) :
    r = .ok allowed := by
  rcases run_refuse.1 h with ⟨-, rfl, -⟩ | ⟨hw, -⟩
  · rfl
  · cases hw

theorem warnOnly_judge {actual : FixedBytes 32} {expected : CommitHash} {r : Except Response Unit}
    (h : Run (judgeCommitment api true actual expected).run tr r) : r = .ok () := by
  rcases run_judgeCommitment.1 h with ⟨-, -, rfl⟩ | ⟨-, h'⟩
  · rfl
  · exact warnOnly_refuse h'

theorem warnOnly_commitmentGate (hw : st.WarnOnly) {r : Except Response (Option FetchedCommitment)}
    (h : Run (commitmentGate st handle hostChainId api).run tr r) : ∃ f, r = .ok f := by
  rcases hv : st.commitmentVerifier with _ | cfg
  · simp only [commitmentGate, hv] at h
    exact ⟨none, (run_exceptPure.1 h).2⟩
  · simp only [commitmentGate, hv] at h
    rcases run_enforceCommitment.1 h with ⟨f, rfl, -⟩ | ⟨e, tr₁, tr₂, -, -, h'⟩
    · exact ⟨some f, rfl⟩
    · rw [hw cfg hv] at h'
      exact ⟨none, warnOnly_refuse h'⟩

theorem warnOnly_integrity {cfg : CommitmentConfig} (hw : cfg.warnOnly = true) {crates : Crates}
    {f : FetchedCommitment} {h : U256} {data : List UInt8} {r : Except Response Unit}
    (hr : Run (enforceCommitmentIntegrity h hostChainId api crates (some cfg) f data).run tr r) :
    r = .ok () := by
  by_cases hm : crates.keccak256 data ≠ f.hash.1 ∧ f.fromCache = true
  · obtain ⟨fresh, tr₁, tr₂, -, -, h₂⟩ := (run_integrity_reread hm).1 hr
    rw [hw] at h₂
    rcases fresh with (_ | m | d | m) | c
    · exact warnOnly_refuse h₂
    · obtain ⟨tr₃, -, h₃⟩ := h₂
      exact warnOnly_judge h₃
    · obtain ⟨tr₃, -, h₃⟩ := h₂
      exact warnOnly_judge h₃
    · obtain ⟨tr₃, -, h₃⟩ := h₂
      exact warnOnly_judge h₃
    · simp only at h₂
      split_ifs at h₂
      · exact h₂.1
      · exact warnOnly_judge h₂
  · rw [integrity_judged hm, hw] at hr
    exact warnOnly_judge hr

theorem warnOnly_integrityGate (hw : st.WarnOnly) {expected : Option FetchedCommitment}
    (hv : expected.isSome → st.commitmentVerifier.isSome) {data : List UInt8}
    {r : Except Response Unit}
    (h : Run (integrityGate st handle hostChainId api expected data).run tr r) : r = .ok () := by
  rcases expected with _ | f
  · exact (run_exceptPure.1 h).2
  · obtain ⟨cfg, hcfg⟩ := Option.isSome_iff_exists.1 (hv rfl)
    simp only [integrityGate, hcfg] at h
    exact warnOnly_integrity (hw cfg hcfg) h

/-! ## Leaving the commitment out -/

/-- The ACL's response is the same without the commitment gate, and so is passing both. -/
theorem gates_strip {r : Except Response (Option FetchedCommitment)}
    (h : Run (gates st handle hostChainId acp api).run tr r)
    (hr : ∀ resp, r = .error resp → st.WarnOnly ∨ ∃ e ∈ tr, Of .decryption e) :
    Run (gates st.ungated handle hostChainId acp api).run (strip tr) (r.map fun _ => none) := by
  obtain ⟨trA, trC, a, c, hs, hA, hC, rfl⟩ := run_gates.1 h
  have hoA := only_acpGate.run hA
  have hoC := only_commitmentGate.run hC
  have hstrip : strip tr = trA := by
    have hsh : Shuffle (strip trA) (strip trC) (strip tr) := hs.filter _
    rw [strip_of_part (by decide) hoA, strip_of_commitment hoC] at hsh
    exact hsh.eq_of_right_nil
  have hleft : Shuffle trA [] (strip tr) := by
    rw [hstrip]
    exact .left_nil _
  have hnone : Run (commitmentGate st.ungated handle hostChainId api).run [] (.ok none) :=
    run_exceptPure.2 ⟨rfl, rfl⟩
  rcases a with _ | resp
  · rcases c with resp | f
    · rcases hr resp rfl with hw | ⟨e, he, hdec⟩
      · obtain ⟨f, hf⟩ := warnOnly_commitmentGate hw hC
        cases hf
      · rcases hs.mem.1 he with he | he
        · exact absurd hdec ((hoA e he).ne (by decide))
        · exact absurd hdec ((hoC e he).ne (by decide))
    · exact run_gates.2 ⟨trA, [], none, .ok none, hleft, hA, hnone, rfl⟩
  · exact run_gates.2 ⟨trA, [], some resp, .ok none, hleft, hA, hnone, rfl⟩

theorem gates_expected {expected : Option FetchedCommitment}
    (h : Run (gates st handle hostChainId acp api).run tr (.ok expected)) (he : expected.isSome) :
    st.commitmentVerifier.isSome := by
  obtain ⟨trA, trC, a, c, -, -, hC, hr⟩ := run_gates.1 h
  rcases hv : st.commitmentVerifier with _ | cfg
  · simp only [commitmentGate, hv] at hC
    rw [(run_exceptPure.1 hC).2] at hr
    rcases a with _ | resp
    · cases hr
      cases he
    · cases hr
  · rfl

/-- The row is fetched and decrypted alike when the integrity check lets it pass. -/
theorem openRow_strip {expected : Option FetchedCommitment}
    {r : Except Response (U256 × EncryptionType)}
    (h : Run (openRow st handle hostChainId api expected).run tr r)
    (hv : expected.isSome → st.commitmentVerifier.isSome)
    (hpass : st.WarnOnly ∨ ∃ e ∈ tr, Of .decryption e) :
    Run (openRow st.ungated handle hostChainId api none).run (strip tr) r := by
  obtain ⟨reply, tr', rfl, h'⟩ := run_openRow.1 h
  have hct : Of .ctServer (⟨.getStoredCt handle.asStr, reply⟩ : Event sig) := rfl
  rw [strip_cons_of_not (hct.ne (by decide))]
  refine run_openRow.2 ⟨reply, strip tr', rfl, ?_⟩
  rcases h' with ⟨resp, hrow, rfl, rfl⟩ | ⟨ct, hrow, h'⟩
  · exact .inl ⟨resp, hrow, rfl, rfl⟩
  refine .inr ⟨ct, hrow, ?_⟩
  rcases run_exceptBind.1 h' with ⟨resp, rfl, hI⟩ | ⟨trI, trD, ⟨⟩, rfl, hI, hD⟩
  · rcases hpass with hw | ⟨e, he, hdec⟩
    · cases warnOnly_integrityGate hw hv hI
    · rcases List.mem_cons.1 he with rfl | he
      · exact absurd hdec (hct.ne (by decide))
      · exact absurd hdec (((only_integrityGate _ _).run hI e he).ne (by decide))
  · have hstrip : strip (trI ++ trD) = trD := by
      rw [strip_append, strip_of_commitment ((only_integrityGate _ _).run hI),
        strip_of_part (by decide) ((only_decryptServed ct).run hD), List.nil_append]
    rw [hstrip]
    exact run_exceptBind.2 (.inr ⟨[], trD, (), rfl, run_exceptPure.2 ⟨rfl, rfl⟩, hD⟩)

theorem admitted_strip {r : Except Response (U256 × EncryptionType)}
    (h : Run (admitted st handle hostChainId acp api).run tr r)
    (hpass : st.WarnOnly ∨ ∃ e ∈ tr, Of .decryption e) :
    Run (admitted st.ungated handle hostChainId acp api).run (strip tr) r := by
  rcases run_exceptBind.1 h with ⟨resp, rfl, hG⟩ | ⟨trG, trO, expected, rfl, hG, hO⟩
  · exact run_exceptBind.2 (.inl ⟨resp, rfl, gates_strip hG fun _ _ => hpass⟩)
  · have hpass' : st.WarnOnly ∨ ∃ e ∈ trO, Of .decryption e := by
      rcases hpass with hw | ⟨e, he, hdec⟩
      · exact .inl hw
      · rcases List.mem_append.1 he with he | he
        · obtain ⟨trA, trC, a, c, hs, hA, hC, -⟩ := run_gates.1 hG
          rcases hs.mem.1 he with he | he
          · exact absurd hdec ((only_acpGate.run hA e he).ne (by decide))
          · exact absurd hdec ((only_commitmentGate.run hC e he).ne (by decide))
        · exact .inr ⟨e, he, hdec⟩
    rw [strip_append]
    refine run_exceptBind.2 (.inr ⟨strip trG, strip trO, none, rfl, ?_,
      openRow_strip hO (gates_expected hG) hpass'⟩)
    exact gates_strip hG fun _ he => by cases he

theorem fetchDecrypt_strip {r : Except Response (U256 × EncryptionType)}
    (h : Run (fetchDecrypt st handle hostChainId acp api).run tr r)
    (hpass : st.WarnOnly ∨ ∃ e ∈ tr, Of .decryption e) :
    Run (fetchDecrypt st.ungated handle hostChainId acp api).run (strip tr) r := by
  rcases run_fetchDecrypt.1 h with ⟨rfl, rfl⟩ | ⟨tr', rfl, h'⟩
  · exact run_fetchDecrypt.2 (.inl ⟨rfl, rfl⟩)
  have hpass' : st.WarnOnly ∨ ∃ e ∈ tr', Of .decryption e := by
    rcases hpass with hw | ⟨e, he, hdec⟩
    · exact .inl hw
    · rcases List.mem_cons.1 he with rfl | he
      · exact absurd hdec (by decide)
      · rcases List.mem_append.1 he with he | he
        · exact .inr ⟨e, he, hdec⟩
        · rw [List.mem_singleton.1 he] at hdec
          exact absurd hdec (by decide)
  refine run_fetchDecrypt.2 (.inr ⟨strip tr', ?_, admitted_strip h' hpass'⟩)
  have hpermit : ¬ Of .commitment (⟨.tryAdmit, true⟩ : Event sig) := by decide
  have hdrop : ¬ Of .commitment (⟨.dropAdmit, ()⟩ : Event sig) := by decide
  rw [strip_cons_of_not hpermit, strip_append, strip_cons_of_not hdrop]
  rfl

/-- A request that asks for no decryption never meets the gate. -/
theorem serve_ungated {req : Request} (hq : req.ask = none) :
    serve st.ungated req = serve st req := by
  rcases unasked_cases hq with ⟨api, rejection, hserve⟩ | ⟨id, rfl⟩ | ⟨id, rfl⟩
  · rw [hserve, hserve]
  · rfl
  · rfl

/-- A request goes alike in the service without the commitment gate, as long as the gate did not
refuse it. -/
theorem serve_strip {req : Request} {resp : Response} (h : Run (serve st req) tr resp)
    (hpass : st.WarnOnly ∨ ∃ e ∈ tr, Of .decryption e) :
    Run (serve st.ungated req) (strip tr) resp := by
  have hrest : ∀ {tr : Trace sig}, Only (Of .rest) tr →
      strip tr = tr ∧ ∀ e ∈ tr, ¬ Of .decryption e :=
    fun h => ⟨strip_of_part (by decide) h, fun e he => (h e he).ne (by decide)⟩
  rcases hq : req.ask with _ | q
  · have honly : Only (Of .rest) tr := (only_poll hq (fun _ _ => rfl) fun _ _ => rfl).run h
    rwa [serve_ungated hq, (hrest honly).1]
  rcases (run_serve hq).1 h with hE | ⟨trE, tr', e, rfl, hE, h'⟩
  · rw [(hrest (rest_enter.run hE)).1]
    exact (run_serve hq).2 (.inl hE)
  obtain ⟨hsE, hdE⟩ := hrest (rest_enter.run hE)
  rw [strip_append, hsE]
  refine (run_serve hq).2 (.inr ⟨trE, strip tr', e, rfl, hE, ?_⟩)
  have hpass' : st.WarnOnly ∨ ∃ e ∈ tr', Of .decryption e := by
    rcases hpass with hw | ⟨e, he, hdec⟩
    · exact .inl hw
    · exact .inr ⟨e, (List.mem_append.1 he).resolve_left fun he => hdE e he hdec, hdec⟩
  rcases h' with hF | ⟨trF, trZ, out, rfl, hF, hZ⟩
  · exact .inl (fetchDecrypt_strip hF hpass')
  obtain ⟨hsZ, hdZ⟩ : strip trZ = trZ ∧ ∀ e ∈ trZ, ¬ Of .decryption e := by
    rcases hZ with hZ | hZ
    · exact hrest ((rest_finish _ _ _ _).run hZ)
    · exact hrest ((rest_finish _ _ _ _).run hZ)
  refine .inr ⟨strip trF, trZ, out, by rw [strip_append, hsZ], fetchDecrypt_strip hF ?_, hZ⟩
  rcases hpass' with hw | ⟨e, he, hdec⟩
  · exact .inl hw
  · exact .inr ⟨e, (List.mem_append.1 he).resolve_right fun he => hdZ e he hdec, hdec⟩

/-! ## Without the gate nothing is left to the scheduler -/

theorem linear_gates : Linear (gates st.ungated handle hostChainId acp api).run := by
  have hA : Linear (acpGate st.ungated handle hostChainId acp api) := by
    unfold acpGate
    split
    · refine (linear_verifyAcp _ _ _ _ _).bind fun r => ?_
      rcases r with e | u
      · exact .pure _
      · exact .pure _
    · exact .pure _
  unfold gates
  split
  · refine (Linear.lift (hA.join_pure _)).exceptBind fun r => ?_
    obtain ⟨_ | resp, c⟩ := r
    · exact .pure _
    · exact .pure _
  · exact .pure _

theorem linear_decryptServed (ct : FheCiphertext) :
    Linear (decryptServed st handle api ct).run := by
  have hmeta : Linear (checkMetadata st handle api ct).run := by
    unfold checkMetadata
    simp only
    split
    · exact .pure _
    split
    · exact .pure _
    split
    · exact (linear_attempt _).exceptBind fun x => .pure _
    split
    · exact (linear_attempt _).exceptBind fun x => .pure _
    · exact .pure _
  rw [decryptServed_eq]
  refine hmeta.exceptBind fun ty => Linear.exceptBind ?_ fun pt => .pure _
  refine (Linear.lift ?_).exceptBind fun r => .pure _
  exact .op fun _ => .op fun _ => .op fun _ => .pure _

theorem linear_judgeCommitment {warnOnly : Bool} {actual : FixedBytes 32} {expected : CommitHash} :
    Linear (judgeCommitment api warnOnly actual expected).run := by
  unfold judgeCommitment
  split
  · exact .pure _
  · unfold refuse
    split
    · exact (linear_attempt _).exceptBind fun x => .pure _
    · exact (linear_attempt _).exceptBind fun x => .pure _

theorem linear_fetchDecrypt : Linear (fetchDecrypt st.ungated handle hostChainId acp api).run := by
  have hrow : ∀ expected, Linear (openRow st.ungated handle hostChainId api expected).run := by
    intro expected
    rw [openRow_eq]
    refine Linear.exceptBind ?_ fun ct => Linear.exceptBind (.pure _) fun _ =>
      Linear.exceptBind ?_ fun _ => linear_decryptServed ct
    · exact (Linear.lift (.op fun _ => .pure _)).exceptBind fun _ => .pure _
    · unfold integrityGate
      split
      · exact linear_judgeCommitment
      · exact .pure _
  rw [fetchDecrypt_eq]
  refine (linear_attempt _).exceptBind fun permit => ?_
  split
  · refine (Linear.lift (linear_gates.exceptBind hrow)).exceptBind fun out => ?_
    exact (linear_attempt _).exceptBind fun _ => .pure _
  · exact .pure _

theorem linear_enter {q : Ask} : Linear q.enter.run := by
  refine (linear_attempt _).exceptBind fun id => Linear.exceptBind ?_ fun handle =>
    Linear.exceptBind ?_ fun now => Linear.exceptBind ?_ fun s => .pure _
  · unfold parseHandle
    split
    · exact .pure _
    · exact .pure _
  · unfold Ask.clock
    split
    · exact .pure _
    · exact linear_attempt _
  · unfold Ask.recipient
    split
    · exact .pure _
    · refine Linear.exceptBind ?_ fun acp => .pure _
      unfold requireAcp
      split
      · exact .pure _
      · exact .pure _

theorem linear_sealToUser (box : CryptoBox) (pk plaintext : List UInt8) :
    Linear (sealToUser box pk plaintext).run := by
  unfold sealToUser
  split
  · exact .pure _
  split
  · exact .pure _
  refine (linear_attempt _).exceptBind fun kp => (linear_attempt _).exceptBind fun nonce => ?_
  split
  · exact .pure _
  · exact .pure _

theorem linear_finish {q : Ask} (crates : Crates) (signer : Option Signer) (e : Entered)
    (out : U256 × EncryptionType) : Linear (q.finish crates signer e out).run := by
  have hsign : ∀ s, Linear (resolveSignature q.api s).run := by
    rintro (_ | (_ | _))
    · exact .pure _
    · exact .pure _
    · exact .pure _
  obtain ⟨pt, ty⟩ := out
  simp only [Ask.finish]
  split
  · refine (hsign _).exceptBind fun signature => ?_
    unfold Ask.answerDecrypt
    split
    · exact .pure _
    · exact (linear_attempt _).exceptBind fun x => .pure _
  · refine Linear.exceptBind ?_ fun pk => Linear.exceptBind ?_ fun sealed =>
      (hsign _).exceptBind fun signature => ?_
    · unfold recipientKey
      split
      · exact .pure _
      · exact .pure _
    · exact (Linear.lift (linear_sealToUser _ _ _)).exceptBind fun r => .pure _
    · unfold Ask.answerSeal
      split
      · exact .pure _
      · exact (linear_attempt _).exceptBind fun x => .pure _

theorem linear_respond {h : Attempt Response Response} (hl : Linear h.run) :
    Linear (respond h) := by
  refine hl.bind fun r => ?_
  rcases r with resp | resp
  · exact .pure _
  · exact .pure _

/-- The answers a request gets determine its response. -/
theorem linear_serve (req : Request) : Linear (serve st.ungated req) := by
  rcases hq : req.ask with _ | q
  · rcases unasked_cases hq with ⟨api, rejection, hserve⟩ | ⟨id, rfl⟩ | ⟨id, rfl⟩
    · rw [hserve]
      exact .pure _
    · refine .op fun r => ?_
      rcases r with _ | r
      · exact .pure _
      · exact .pure _
    · refine .op fun r => ?_
      rcases r with _ | r
      · exact .pure _
      · exact .pure _
  · rw [serve_eq _ hq]
    exact linear_respond (linear_enter.exceptBind fun e => linear_fetchDecrypt.exceptBind
      fun out => linear_finish _ _ e out)

/-- With a warn-only verifier a request is answered as it is with none, by the same answers of
everything else; and so it is with an enforcing one, when it lets the request reach decryption. -/
theorem response_ungated (st : AppState) (req : Request) {tr : Trace sig} {resp : Response}
    (h : Run (serve st req) tr resp)
    (hpass : (∀ cfg, st.commitmentVerifier = some cfg → cfg.warnOnly = true)
      ∨ ∃ e ∈ tr, Of .decryption e) :
    Run (serve { st with commitmentVerifier := none } req)
        (tr.filter fun e => decide (¬ Of .commitment e)) resp
      ∧ ∀ resp', Run (serve { st with commitmentVerifier := none } req)
        (tr.filter fun e => decide (¬ Of .commitment e)) resp' → resp' = resp := by
  have hrun : Run (serve st.ungated req) (strip tr) resp := serve_strip h hpass
  exact ⟨hrun, fun resp' h' => (linear_serve req).run_unique h' hrun⟩

/-- The gates of a request for which the registry holds nothing, in warn-only mode. -/
def missingGates : Trace sig :=
  [⟨.isPubliclyAllowed sampleChain sampleHandle.u256, .ok true⟩,
    ⟨.getFromCache (1, sampleHandle.u256), none⟩,
    ⟨.getCommitment (.zero 32) (toBeBytes sampleHandle.u256), .ok (.zero 32)⟩,
    ⟨.evictFromCache (1, sampleHandle.u256), ()⟩,
    ⟨.log (commitmentLog "not_found" (some "warn_only")), ()⟩]

theorem missing_serve : Run (serve (sampleState true) (sampleRequest 1))
    (⟨.newUuid, "id"⟩ :: sampleFetched missingGates sampleReply) sampleResponse := by
  have hintegrity : Run (integrityGate (sampleState true) sampleHandle 1 .v1 none []).run []
      (.ok ()) := run_pure.2 ⟨rfl, rfl⟩
  refine sample_answer (sample_fetched ?_ hintegrity sample_row)
  refine run_gates.2 ⟨[⟨.isPubliclyAllowed sampleChain sampleHandle.u256, .ok true⟩], _, none, _,
    .append _ _, ?_, ?_, rfl⟩
  · refine run_enforceAcp.2 (.inl ⟨rfl, ?_⟩)
    exact run_attemptBind.2 ⟨.ok true, [], rfl, run_checkAllowed_ok.2 ⟨rfl, rfl⟩⟩
  · refine run_enforceCommitment.2 (.inr ⟨.notFound, (missingGates.drop 1).take 3, _, rfl, ?_,
      run_refuse.2 (.inl ⟨rfl, rfl, rfl⟩)⟩)
    refine (run_fetchCommitment _ _ _).2 (.inr ⟨.error .notFound, _, rfl, rfl, ?_⟩)
    exact (run_refreshCommitment _ _ _).2 (.inr (.inl ⟨rfl, rfl⟩))

/-- A warn-only gate that finds no commitment, and an enforcing one that finds it. -/
theorem response_ungated_sample :
    (Run (serve { sampleState true with commitmentVerifier := none } (sampleRequest 1))
        ((⟨.newUuid, "id"⟩ :: sampleFetched missingGates sampleReply : Trace sig).filter
          fun e => decide (¬ Of .commitment e)) sampleResponse
      ∧ ∀ resp', Run (serve { sampleState true with commitmentVerifier := none } (sampleRequest 1))
        ((⟨.newUuid, "id"⟩ :: sampleFetched missingGates sampleReply : Trace sig).filter
          fun e => decide (¬ Of .commitment e)) resp' → resp' = sampleResponse)
    ∧ ∀ resp', Run (serve { sampleState false with commitmentVerifier := none } (sampleRequest 1))
      ((⟨.newUuid, "id"⟩ :: sampleFetch : Trace sig).filter fun e => decide (¬ Of .commitment e))
      resp' → resp' = sampleResponse := by
  refine ⟨?_, ?_⟩
  · refine response_ungated (sampleState true) (sampleRequest 1) missing_serve
      (.inl fun cfg hcfg => ?_)
    cases hcfg
    rfl
  · refine (response_ungated (sampleState false) (sampleRequest 1) (sample_serve false)
      (.inr ⟨⟨.acquireDecrypt, ()⟩, ?_, rfl⟩)).2
    simp [sampleFetch]

end Teecryptor
