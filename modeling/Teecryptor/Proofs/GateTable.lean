import Teecryptor.Proofs.WriteOnce
import Teecryptor.Proofs.TwoRuns

/-!
# Every way through the commitment gate

The gate looks a handle up, and judges the served bytes on what it found, with one more read of the
registry if that was cached and does not fit. `gate_cells` lists its runs, each with its trace and
its verdict, and `serve_gate` finds one of them in every admitted request.
-/

namespace Teecryptor

open Interact Interact.Prog Rust

/-- The line of a failed check. -/
def failLine (warnOnly : Bool) (reason : String) : Event sig :=
  ⟨.log (commitmentLog reason (if warnOnly then some "warn_only" else none)), ()⟩

/-- A line without a verdict. -/
def noteLine (reason : String) : Event sig := ⟨.log (commitmentLog reason none), ()⟩

section Cells

variable (crates : Crates) (cfg : CommitmentConfig) (g : GateCall)

/-- The served bytes, if there are any, hash to `c`. -/
def Fits (c : FixedBytes 32) : Prop := ∀ d, g.served = some d → crates.keccak256 d = c

/-- Bytes were served that do not hash to `c`. -/
def Misfits (c : FixedBytes 32) : Prop := ∃ d, g.served = some d ∧ crates.keccak256 d ≠ c

/-- The registry does not answer: the call times out or fails. -/
inductive Unanswered : RpcResult (FixedBytes 32) → Prop
  | timeout : Unanswered .timeout
  | error (e : ContractError) : Unanswered (.error e)

/-- The runs of the gate, by what the cache and the registry answer. -/
inductive GateCell : Trace sig → Except Response Unit → Prop
  | absent : GateCell [⟨.getFromCache g.key, none⟩, answered cfg g.handle (.ok (.zero 32)),
      ⟨.evictFromCache g.key, ()⟩, failLine cfg.warnOnly "not_found"]
      (refusal cfg.warnOnly (g.api.retryable .commitmentPending))
  | timeout : GateCell [⟨.getFromCache g.key, none⟩, answered cfg g.handle .timeout,
      failLine cfg.warnOnly "timeout"]
      (refusal cfg.warnOnly (g.api.err 504 "commitment_verifier_timeout"))
  | transport (e : ContractError) : GateCell [⟨.getFromCache g.key, none⟩,
      answered cfg g.handle (.error e), failLine cfg.warnOnly "transport"]
      (refusal cfg.warnOnly (g.api.err 502 "commitment_verifier_error"))
  | read (c : CommitHash) (h : Fits crates g c.1) : GateCell [⟨.getFromCache g.key, none⟩,
      answered cfg g.handle (.ok c.1), ⟨.putInCache g.key c, ()⟩] (.ok ())
  | readMismatch (c : CommitHash) (h : Misfits crates g c.1) : GateCell
      [⟨.getFromCache g.key, none⟩, answered cfg g.handle (.ok c.1), ⟨.putInCache g.key c, ()⟩,
        failLine cfg.warnOnly "mismatch"]
      (refusal cfg.warnOnly (g.api.err 502 "commitment_mismatch"))
  | hit (c : CommitHash) (h : Fits crates g c.1) : GateCell [⟨.getFromCache g.key, some c⟩] (.ok ())
  | rescued (c fresh : CommitHash) (h : Misfits crates g c.1) (hf : Fits crates g fresh.1) :
      GateCell [⟨.getFromCache g.key, some c⟩, answered cfg g.handle (.ok fresh.1),
        ⟨.putInCache g.key fresh, ()⟩, noteLine "stale_cache_refreshed"] (.ok ())
  | mismatch (c fresh : CommitHash) (h : Misfits crates g c.1) (hf : Misfits crates g fresh.1) :
      GateCell [⟨.getFromCache g.key, some c⟩, answered cfg g.handle (.ok fresh.1),
        ⟨.putInCache g.key fresh, ()⟩, failLine cfg.warnOnly "mismatch"]
      (refusal cfg.warnOnly (g.api.err 502 "commitment_mismatch"))
  | gone (c : CommitHash) (h : Misfits crates g c.1) : GateCell [⟨.getFromCache g.key, some c⟩,
      answered cfg g.handle (.ok (.zero 32)), ⟨.evictFromCache g.key, ()⟩,
      failLine cfg.warnOnly "not_found"]
      (refusal cfg.warnOnly (g.api.retryable .commitmentPending))
  | unreached (c : CommitHash) (x : RpcResult (FixedBytes 32)) (h : Misfits crates g c.1)
      (hx : Unanswered x) : GateCell [⟨.getFromCache g.key, some c⟩, answered cfg g.handle x,
        noteLine "refresh_failed", failLine cfg.warnOnly "mismatch"]
      (refusal cfg.warnOnly (g.api.err 502 "commitment_mismatch"))

end Cells

section

variable {crates : Crates} {cfg : CommitmentConfig} {g : GateCall} {tr : Trace sig}

theorem refuse_eq {α : Type} {warnOnly : Bool} {reason : String} {allowed : α} {resp : Response}
    {r : Except Response α} (h : Run (refuse warnOnly reason allowed resp).run tr r) :
    tr = [failLine warnOnly reason] ∧ r = if warnOnly then .ok allowed else .error resp := by
  rcases run_refuse.1 h with ⟨hw, rfl, rfl⟩ | ⟨hw, rfl, rfl⟩
  · exact ⟨by simp [failLine, hw], by simp [hw]⟩
  · exact ⟨by simp [failLine, hw], by simp [hw]⟩

/-- What is judged on a hash it does not fit is refused as a mismatch. -/
theorem judge_cell {d : List UInt8} (hs : g.served = some d) {c : CommitHash}
    {r : Except Response Unit}
    (h : Run (judgeCommitment g.api cfg.warnOnly (crates.keccak256 d) c).run tr r) :
    (Fits crates g c.1 ∧ tr = [] ∧ r = .ok ())
      ∨ (Misfits crates g c.1 ∧ tr = [failLine cfg.warnOnly "mismatch"]
        ∧ r = refusal cfg.warnOnly (g.api.err 502 "commitment_mismatch")) := by
  rcases run_judgeCommitment.1 h with ⟨he, rfl, rfl⟩ | ⟨hne, h⟩
  · refine .inl ⟨fun d' hd' => ?_, rfl, rfl⟩
    rw [hs] at hd'
    cases hd'
    exact he
  · obtain ⟨rfl, rfl⟩ := refuse_eq h
    exact .inr ⟨⟨d, hs, hne⟩, rfl, rfl⟩

/-- A lookup that fails ends the gate, with its own line. -/
theorem failed_cell (crates : Crates) {trF trR : Trace sig} {e : CommitmentError}
    {o : Except Response (Option FetchedCommitment)}
    (hF : Run (fetchCommitment cfg g.handle g.hostChainId).run trF (.error e))
    (hR : Run (refuse cfg.warnOnly (commitmentReason e) none (commitmentResponse g.api e)).run
      trR o) :
    GateCell crates cfg g (trF ++ trR) (o.map fun _ => ()) ∧ ∀ f, o ≠ .ok (some f) := by
  obtain ⟨rfl, rfl⟩ := refuse_eq hR
  have hverdict : ∀ resp : Response, ((if cfg.warnOnly then Except.ok none else .error resp :
      Except Response (Option FetchedCommitment)).map fun _ => ()) = refusal cfg.warnOnly resp := by
    intro resp
    unfold refusal
    split
    · rfl
    · rfl
  refine ⟨?_, fun f => by split <;> simp⟩
  rw [hverdict]
  rcases (run_fetchCommitment _ _ _).1 hF with ⟨c, hr, -⟩ | ⟨r', tr', hr, rfl, hread⟩
  · cases hr
  rcases (run_refreshCommitment _ _ _).1 hread with
    ⟨c, rfl, rfl⟩ | ⟨rfl, rfl⟩ | ⟨rfl, rfl⟩ | ⟨e, rfl, rfl⟩
  · cases hr
  · cases hr
    exact .absent
  · cases hr
    exact .timeout
  · cases hr
    exact .transport e

/-- Bytes judged on a cached hash that they do not fit: the registry is read once more. -/
theorem reread_cell {d : List UInt8} (hs : g.served = some d) {c : CommitHash}
    (hm : crates.keccak256 d ≠ c.1) {r : Except Response Unit}
    (h : Run (enforceCommitmentIntegrity g.handle g.hostChainId g.api crates (some cfg) ⟨c, true⟩
      d).run tr r) :
    GateCell crates cfg g (⟨.getFromCache g.key, some c⟩ :: tr) r := by
  have hmis : Misfits crates g c.1 := ⟨d, hs, hm⟩
  obtain ⟨fresh, tr₁, tr₂, rfl, h₁, h₂⟩ := (run_integrity_reread ⟨hm, rfl⟩).1 h
  -- after a read that is not answered, the cached hash is judged
  have hunreached : ∀ x, Unanswered x → (∃ tr₃, tr₂ = noteLine "refresh_failed" :: tr₃
      ∧ Run (judgeCommitment g.api cfg.warnOnly (crates.keccak256 d) c).run tr₃ r) →
      GateCell crates cfg g (⟨.getFromCache g.key, some c⟩ :: ([answered cfg g.handle x] ++ tr₂))
        r := by
    rintro x hx ⟨tr₃, rfl, h₃⟩
    rcases judge_cell hs h₃ with ⟨hfit, -, -⟩ | ⟨-, rfl, rfl⟩
    · exact absurd (hfit d hs) hm
    · exact .unreached c x hmis hx
  rcases (run_refreshCommitment _ _ _).1 h₁ with ⟨fresh, rfl, rfl⟩ | ⟨rfl, rfl⟩ | ⟨rfl, rfl⟩
    | ⟨e, rfl, rfl⟩
  · simp only at h₂
    split_ifs at h₂ with hfresh
    · obtain ⟨rfl, rfl⟩ := h₂
      refine .rescued c fresh hmis fun d' hd' => ?_
      rw [hs] at hd'
      cases hd'
      exact hfresh.symm
    · rcases judge_cell hs h₂ with ⟨hfit, -, -⟩ | ⟨hmis', rfl, rfl⟩
      · exact absurd (hfit d hs).symm hfresh
      · exact .mismatch c fresh hmis hmis'
  · obtain ⟨rfl, rfl⟩ := refuse_eq h₂
    exact .gone c hmis
  · exact hunreached .timeout .timeout h₂
  · exact hunreached (.error e) (.error e) h₂

/-- Every run of the gate is one of the table's. -/
theorem gate_cells {r : Except Response Unit} (h : Run (gate crates cfg g) tr r) :
    GateCell crates cfg g tr r := by
  rcases run_exceptBind.1 h with ⟨resp, rfl, hE⟩ | ⟨trE, trI, o, rfl, hE, hI⟩
  · rcases run_enforceCommitment.1 hE with ⟨f, hf, -⟩ | ⟨e, tr₁, tr₂, rfl, h₁, h₂⟩
    · cases hf
    · exact (failed_cell crates h₁ h₂).1
  · rcases run_enforceCommitment.1 hE with ⟨f, hf, hF⟩ | ⟨e, tr₁, tr₂, rfl, h₁, h₂⟩
    swap
    · obtain ⟨hcell, hne⟩ := failed_cell crates h₁ h₂
      rcases o with _ | f
      · obtain ⟨rfl, rfl⟩ := run_exceptPure.1 hI
        rw [List.append_nil]
        exact hcell
      · exact absurd rfl (hne f)
    cases hf
    rcases hs : g.served with _ | d
    · simp only [hs] at hI
      obtain ⟨rfl, rfl⟩ := run_exceptPure.1 hI
      rw [List.append_nil]
      have hfit : ∀ c, Fits crates g c := fun c d hd => by rw [hs] at hd; cases hd
      rcases (run_fetchCommitment _ _ _).1 hF with ⟨c, -, rfl⟩ | ⟨r', tr', hr, rfl, hread⟩
      · exact .hit c (hfit _)
      · rcases (run_refreshCommitment _ _ _).1 hread with ⟨c, rfl, rfl⟩ | ⟨rfl, -⟩ | ⟨rfl, -⟩
          | ⟨e, rfl, -⟩
        · exact .read c (hfit _)
        all_goals cases hr
    · simp only [hs] at hI
      rcases (run_fetchCommitment _ _ _).1 hF with ⟨c, hf, rfl⟩ | ⟨r', tr', hr, rfl, hread⟩
      · cases hf
        by_cases hm : crates.keccak256 d ≠ c.1
        · exact reread_cell hs hm hI
        · rw [integrity_judged (fun hc => hm hc.1)] at hI
          rcases judge_cell hs hI with ⟨hfit, rfl, rfl⟩ | ⟨⟨d', hd', hmis⟩, -, -⟩
          · exact .hit c hfit
          · rw [hs] at hd'
            cases hd'
            exact absurd hmis hm
      · rcases (run_refreshCommitment _ _ _).1 hread with ⟨c, rfl, rfl⟩ | ⟨rfl, -⟩ | ⟨rfl, -⟩
          | ⟨e, rfl, -⟩
        · cases hr
          rw [integrity_judged (fun hc => by cases hc.2)] at hI
          rcases judge_cell hs hI with ⟨hfit, rfl, rfl⟩ | ⟨hmis, rfl, rfl⟩
          · exact .read c hfit
          · exact .readMismatch c hmis
        all_goals cases hr

end

/-! ## The gate of a request -/

section Served

variable {st : AppState} {cfg : CommitmentConfig} {handle : Handle} {hostChainId : UInt64}
  {acp : Option AcpData} {api : ApiVersion} {tr : Trace sig}

/-- The bytes an event brings, if it is ct-server's answer and has a row in the right form. -/
def servedBytes (st : AppState) (handle : Handle) (api : ApiVersion) :
    Event sig → Option (List UInt8)
  | ⟨.getStoredCt _, reply⟩ =>
    match servedRow st handle api reply with
    | .ok ct => some ct.data
    | .error _ => none
  | _ => none

/-- The bytes a request was served and had checked. -/
def served (st : AppState) (handle : Handle) (api : ApiVersion) (tr : Trace sig) :
    Option (List UInt8) := tr.findSome? (servedBytes st handle api)

theorem servedBytes_of_not {e : Event sig} (h : ¬ Of .ctServer e) :
    servedBytes st handle api e = none := by
  unfold servedBytes
  split
  · exact absurd rfl h
  · rfl

theorem served_nil {P : Event sig → Prop} (hP : ∀ e, P e → ¬ Of .ctServer e) (h : Only P tr) :
    served st handle api tr = none :=
  List.findSome?_eq_none_iff.2 fun e he => servedBytes_of_not (hP e (h e he))

theorem served_append {tr tr' : Trace sig} : served st handle api (tr ++ tr')
    = (served st handle api tr).or (served st handle api tr') := List.findSome?_append

/-- A request at its commitment gate. -/
def gateCall (st : AppState) (handle : Handle) (hostChainId : UInt64) (api : ApiVersion)
    (tr : Trace sig) : GateCall := ⟨handle.u256, hostChainId, api, served st handle api tr⟩

/-- What the gates' part of a request says of its commitment gate. -/
theorem gates_commitment (hv : st.commitmentVerifier = some cfg)
    {r : Except Response (Option FetchedCommitment)}
    (h : Run (gates st handle hostChainId acp api).run tr r) :
    ∃ a c, Run (acpGate st handle hostChainId acp api) (eventsIn .acl tr) a
      ∧ Run (enforceCommitment handle.u256 hostChainId api cfg).run (eventsIn .commitment tr) c
      ∧ served st handle api tr = none
      ∧ r = match a with
        | some resp => .error resp
        | none => c := by
  obtain ⟨trA, trC, a, c, hs, hA, hC, hr⟩ := run_gates.1 h
  have hoA := only_acpGate.run hA
  have hoC := only_commitmentGate.run hC
  have hacl : eventsIn .acl tr = trA := by
    have hsh : Shuffle (eventsIn .acl trA) (eventsIn .acl trC) (eventsIn .acl tr) := hs.filter _
    rw [eventsIn_of_only hoA, eventsIn_nil (fun e he => he.ne (by decide)) hoC] at hsh
    exact hsh.eq_of_right_nil
  have hcommit : eventsIn .commitment tr = trC := by
    have hsh : Shuffle (eventsIn .commitment trA) (eventsIn .commitment trC)
        (eventsIn .commitment tr) := hs.filter _
    rw [eventsIn_of_only hoC, eventsIn_nil (fun e he => he.ne (by decide)) hoA] at hsh
    exact hsh.eq_of_left_nil
  simp only [commitmentGate, hv] at hC
  refine ⟨a, c, hacl.symm ▸ hA, hcommit.symm ▸ hC, ?_, hr⟩
  refine List.findSome?_eq_none_iff.2 fun e he => servedBytes_of_not ?_
  rcases hs.mem.1 he with he | he
  · exact (hoA e he).ne (by decide)
  · exact (hoC e he).ne (by decide)

/-- The error code a response carries in its body. -/
def Response.code (resp : Response) : Option String :=
  match resp.body with
  | .error r => some r.error
  | _ => none

def Response.IsMismatch (resp : Response) : Prop := resp.code = some "commitment_mismatch"

theorem err_not_mismatch (api : ApiVersion) (status : ℕ) (code : String)
    (h : (status, code) ∈ apiErrors) : ¬ (api.err status code).IsMismatch := by
  have hne : "commitment_mismatch" ∉ errorCodes := by decide
  rintro hm
  obtain rfl : code = "commitment_mismatch" := Option.some.inj hm
  exact hne (code_mem_errorCodes h)

theorem retryable_not_mismatch (api : ApiVersion) (reason : RetryReason) :
    ¬ (api.retryable reason).IsMismatch := by
  cases api
  · cases reason <;>
      simp [Response.IsMismatch, Response.code, ApiVersion.retryable, ApiVersion.err,
        RetryReason.asStr]
  · simp [Response.IsMismatch, Response.code, ApiVersion.retryable, retryable204]

theorem answer_not_mismatch {resp : Response} {a : Answer} (h : resp.answer = some a) :
    ¬ resp.IsMismatch := by
  rcases resp with ⟨status, reason, body, outcome⟩
  cases body
  case error r => simp [Response.answer, Body.answer] at h
  all_goals simp [Response.IsMismatch, Response.code]

/-- What the commitment gate's verdict `v` has to do with how the request ends: refused, it ends
with the gate's response, unless the ACL's goes first and nothing is served; and it ends with
`commitment_mismatch` only if that is the gate's. -/
structure GateDecides (st : AppState) (handle : Handle) (hostChainId : UInt64)
    (acp : Option AcpData) (api : ApiVersion) (tr : Trace sig) (v : Except Response Unit)
    (ends : Response → Prop) : Prop where
  refuses : ∀ resp, v = .error resp → ends resp
    ∨ (served st handle api tr = none
      ∧ ∃ a, Run (acpGate st handle hostChainId acp api) (eventsIn .acl tr) (some a) ∧ ends a)
  mismatch : ∀ resp, ends resp → resp.IsMismatch → v = .error resp

/-- The second half of the gate: the served bytes, judged on what the lookup gave. -/
def judgeServed (crates : Crates) (cfg : CommitmentConfig) (g : GateCall)
    (fetched : Option FetchedCommitment) : Attempt Response Unit :=
  match fetched, g.served with
  | some fetched, some ctData =>
    enforceCommitmentIntegrity g.handle g.hostChainId g.api crates (some cfg) fetched ctData
  | _, _ => pure ()

theorem run_gate {crates : Crates} {g : GateCall} {v : Except Response Unit} :
    Run (gate crates cfg g) tr v ↔
      (∃ resp, v = .error resp
        ∧ Run (enforceCommitment g.handle g.hostChainId g.api cfg).run tr (.error resp))
      ∨ ∃ tr₁ tr₂ fetched, tr = tr₁ ++ tr₂
        ∧ Run (enforceCommitment g.handle g.hostChainId g.api cfg).run tr₁ (.ok fetched)
        ∧ Run (judgeServed crates cfg g fetched).run tr₂ v := run_exceptBind

theorem run_judgeServed_none {crates : Crates} {g : GateCall} (hs : g.served = none)
    (fetched : Option FetchedCommitment) :
    Run (judgeServed crates cfg g fetched).run [] (.ok ()) := by
  unfold judgeServed
  split
  next f d hd =>
    rw [hs] at hd
    cases hd
  next => exact run_exceptPure.2 ⟨rfl, rfl⟩

theorem integrityGate_eq (hv : st.commitmentVerifier = some cfg) {g : GateCall}
    {ctData : List UInt8} (hg : g = ⟨handle.u256, hostChainId, api, some ctData⟩)
    (expected : Option FetchedCommitment) :
    integrityGate st handle hostChainId api expected ctData
      = judgeServed st.crates cfg g expected := by
  subst hg
  cases expected
  · rfl
  · simp only [integrityGate, judgeServed, hv]

/-- What follows the gates: the row's bytes are judged. -/
theorem openRow_commitment (hv : st.commitmentVerifier = some cfg)
    {expected : Option FetchedCommitment} {r : Except Response (U256 × EncryptionType)}
    (h : Run (openRow st handle hostChainId api expected).run tr r) :
    ∃ v, Run (judgeServed st.crates cfg (gateCall st handle hostChainId api tr) expected).run
        (eventsIn .commitment tr) v
      ∧ (∀ resp, v = .error resp → r = .error resp)
      ∧ ∀ resp, r = .error resp → resp.IsMismatch → v = .error resp := by
  obtain ⟨reply, tr', rfl, h'⟩ := run_openRow.1 h
  have hct : Of .ctServer (⟨.getStoredCt handle.asStr, reply⟩ : Event sig) := rfl
  rw [eventsIn_cons_of_not (hct.ne (by decide))]
  rcases h' with ⟨resp, hrow, rfl, rfl⟩ | ⟨ct, hrow, h'⟩
  · have hnone : served st handle api [⟨.getStoredCt handle.asStr, reply⟩] = none := by
      simp [served, servedBytes, hrow]
    refine ⟨.ok (), ?_, fun _ hx => (by cases hx), fun resp' hr hm => ?_⟩
    · exact run_judgeServed_none hnone expected
    · cases hr
      exact absurd hm (stops_servedRow (P := fun r => ¬ r.IsMismatch) (err_not_mismatch api)
        (fun reason _ => retryable_not_mismatch api reason) hrow)
  have hsome : gateCall st handle hostChainId api (⟨.getStoredCt handle.asStr, reply⟩ :: tr')
      = ⟨handle.u256, hostChainId, api, some ct.data⟩ := by
    simp [gateCall, served, servedBytes, hrow]
  rw [← integrityGate_eq hv hsome]
  rcases run_exceptBind.1 h' with ⟨resp, rfl, hI⟩ | ⟨trI, trD, ⟨⟩, rfl, hI, hD⟩
  · refine ⟨.error resp, ?_, fun _ hx => by cases hx; rfl, fun _ hx _ => by cases hx; rfl⟩
    rwa [eventsIn_of_only ((only_integrityGate _ _).run hI)]
  · refine ⟨.ok (), ?_, fun _ hx => (by cases hx), fun resp hr hm => ?_⟩
    · rwa [eventsIn_append, eventsIn_of_only ((only_integrityGate _ _).run hI),
        eventsIn_nil (fun e he => he.ne (by decide)) ((only_decryptServed ct).run hD),
        List.append_nil]
    · subst hr
      exact absurd hm (stops_decryptServed (P := fun r => ¬ r.IsMismatch)
        (err_not_mismatch api) ct _ _ hD)

theorem gateCall_append_left {tr tr' : Trace sig} (h : served st handle api tr = none) :
    gateCall st handle hostChainId api (tr ++ tr') = gateCall st handle hostChainId api tr' := by
  simp [gateCall, served_append, h]

/-- The ACL's refusal is never `commitment_mismatch`. -/
theorem acpGate_not_mismatch {resp : Response}
    (h : Run (acpGate st handle hostChainId acp api) tr (some resp)) : ¬ resp.IsMismatch :=
  stops_acpGate (P := fun r => ¬ r.IsMismatch) (err_not_mismatch api) h

theorem admitted_gate (hv : st.commitmentVerifier = some cfg)
    {r : Except Response (U256 × EncryptionType)}
    (h : Run (admitted st handle hostChainId acp api).run tr r) :
    ∃ v, Run (gate st.crates cfg (gateCall st handle hostChainId api tr)) (eventsIn .commitment tr) v
      ∧ GateDecides st handle hostChainId acp api tr v fun resp => r = .error resp := by
  rcases run_exceptBind.1 h with ⟨resp, rfl, hG⟩ | ⟨trG, trO, expected, rfl, hG, hO⟩
  · obtain ⟨a, c, hA, hC, hs, hr⟩ := gates_commitment hv hG
    -- nothing was served: the gate is over with its lookup
    have hgate : Run (gate st.crates cfg (gateCall st handle hostChainId api tr))
        (eventsIn .commitment tr) (c.map fun _ => ()) := by
      rcases c with resp | f
      · exact run_gate.2 (.inl ⟨resp, rfl, hC⟩)
      · exact run_gate.2 (.inr ⟨_, [], f, (List.append_nil _).symm, hC, run_judgeServed_none hs f⟩)
    refine ⟨_, hgate, ?_, ?_⟩
    · intro resp' hv
      rcases a with _ | a
      · cases hr
        cases hv
        exact .inl rfl
      · cases hr
        exact .inr ⟨hs, _, hA, rfl⟩
    · intro resp' hr' hm
      cases hr'
      rcases a with _ | a
      · cases hr
        rfl
      · cases hr
        exact absurd hm (acpGate_not_mismatch hA)
  · obtain ⟨a, c, hA, hC, hs, hr⟩ := gates_commitment hv hG
    obtain ⟨v, hJ, hstop, hmis⟩ := openRow_commitment hv hO
    rcases a with _ | a
    swap
    · cases hr
    cases hr
    refine ⟨v, ?_, fun resp hv => .inl (hstop resp hv), hmis⟩
    rw [gateCall_append_left hs, eventsIn_append]
    exact run_gate.2 (.inr ⟨_, _, expected, rfl, hC, hJ⟩)

/-- An admitted request with a commitment verifier runs its commitment gate, on the bytes that it
is served. -/
theorem fetchDecrypt_gate (hv : st.commitmentVerifier = some cfg)
    {r : Except Response (U256 × EncryptionType)}
    (h : Run (fetchDecrypt st handle hostChainId acp api).run tr r)
    (hpermit : (⟨.tryAdmit, true⟩ : Event sig) ∈ tr) :
    ∃ v, Run (gate st.crates cfg (gateCall st handle hostChainId api tr)) (eventsIn .commitment tr) v
      ∧ GateDecides st handle hostChainId acp api tr v fun resp => r = .error resp := by
  rcases run_fetchDecrypt.1 h with ⟨rfl, -⟩ | ⟨tr', rfl, h'⟩
  · simp at hpermit
  have hadm : Of .admission (⟨.tryAdmit, true⟩ : Event sig) := rfl
  have hdrop : Of .admission (⟨.dropAdmit, ()⟩ : Event sig) := rfl
  have houter : ∀ p, p ≠ .admission →
      eventsIn p (⟨.tryAdmit, true⟩ :: (tr' ++ [⟨.dropAdmit, ()⟩])) = eventsIn p tr' := by
    intro p hp
    rw [eventsIn_cons_of_not (hadm.ne hp.symm), eventsIn_append,
      eventsIn_cons_of_not (hdrop.ne hp.symm)]
    exact List.append_nil _
  have hcall : gateCall st handle hostChainId api (⟨.tryAdmit, true⟩ :: (tr' ++ [⟨.dropAdmit, ()⟩]))
      = gateCall st handle hostChainId api tr' := by
    have hnone : ∀ {e : Event sig}, Of .admission e → served st handle api [e] = none :=
      fun he => served_nil (fun e he => he.ne (by decide)) (only_singleton.2 he)
    rw [← List.singleton_append, gateCall_append_left (hnone hadm)]
    simp [gateCall, served_append, hnone hdrop]
  obtain ⟨v, hgate, hrefuses, hmis⟩ := admitted_gate hv h'
  rw [hcall, houter _ (by decide)]
  have hserved : served st handle api (⟨.tryAdmit, true⟩ :: (tr' ++ [⟨.dropAdmit, ()⟩]))
      = served st handle api tr' := congrArg GateCall.served hcall
  refine ⟨v, hgate, ?_, hmis⟩
  rwa [houter _ (by decide), hserved]

/-- The same of a whole request. -/
theorem serve_gate {q : Ask} {req : Request} (hq : req.ask = some q)
    (hv : st.commitmentVerifier = some cfg) {resp : Response} (h : Run (serve st req) tr resp)
    (hpermit : (⟨.tryAdmit, true⟩ : Event sig) ∈ tr) :
    ∃ handle v, Handle.parse q.ctTempkey = some handle
      ∧ Run (gate st.crates cfg (gateCall st handle q.hostChainId q.api tr))
        (eventsIn .commitment tr) v
      ∧ GateDecides st handle q.hostChainId q.acp q.api tr v fun r => resp = r := by
  have hrest : ∀ {tr : Trace sig}, Only (Of .rest) tr →
      (⟨.tryAdmit, true⟩ : Event sig) ∉ tr ∧ (∀ p, p ≠ .rest → eventsIn p tr = [])
        ∧ ∀ handle, served st handle q.api tr = none :=
    fun h => ⟨fun hm => absurd (h _ hm) (by decide),
      fun p hp => eventsIn_nil (fun e he => he.ne hp.symm) h,
      fun handle => served_nil (fun e he => he.ne (by decide)) h⟩
  rcases (run_serve hq).1 h with h | ⟨trE, tr', e, rfl, hE, h'⟩
  · exact absurd hpermit (hrest (rest_enter.run h)).1
  obtain ⟨hnE, hfE, hsE⟩ := hrest (rest_enter.run hE)
  have hpermit' : (⟨.tryAdmit, true⟩ : Event sig) ∈ tr' :=
    (List.mem_append.1 hpermit).resolve_left hnE
  have hparts : ∀ p, p ≠ .rest → eventsIn p (trE ++ tr') = eventsIn p tr' := by
    intro p hp
    rw [eventsIn_append, hfE p hp, List.nil_append]
  refine ⟨e.handle, ?_⟩
  rw [hparts _ (by decide), gateCall_append_left (hsE _)]
  rcases h' with hF | ⟨trF, trZ, out, rfl, hF, hZ⟩
  · obtain ⟨v, hgate, hrefuses, hmis⟩ := fetchDecrypt_gate hv hF hpermit'
    refine ⟨v, (enter_ok hE).1, hgate, fun r hr => ?_, fun r hr hm => ?_⟩
    · rw [hparts _ (by decide), served_append, hsE, Option.none_or]
      rcases hrefuses r hr with he | ⟨hs, a, hA, he⟩
      · exact .inl (Except.error.inj he)
      · exact .inr ⟨hs, a, hA, Except.error.inj he⟩
    · exact hmis r (by rw [hr]) hm
  · obtain ⟨hnZ, hfZ, hsZ⟩ : (⟨.tryAdmit, true⟩ : Event sig) ∉ trZ
        ∧ (∀ p, p ≠ .rest → eventsIn p trZ = []) ∧ ∀ handle, served st handle q.api trZ = none := by
      rcases hZ with hZ | hZ
      · exact hrest ((rest_finish _ _ _ _).run hZ)
      · exact hrest ((rest_finish _ _ _ _).run hZ)
    obtain ⟨v, hgate, hrefuses, hmis⟩ :=
      fetchDecrypt_gate hv hF ((List.mem_append.1 hpermit').resolve_right hnZ)
    have hcall : gateCall st e.handle q.hostChainId q.api (trF ++ trZ)
        = gateCall st e.handle q.hostChainId q.api trF := by
      simp [gateCall, served_append, hsZ]
    refine ⟨v, (enter_ok hE).1, ?_, fun r hr => ?_, fun r hr hm => ?_⟩
    · rw [hcall, eventsIn_append, hfZ _ (by decide), List.append_nil]
      exact hgate
    · rcases hrefuses r hr with he | ⟨-, a, hA, he⟩
      · cases he
      · cases he
    · subst hr
      refine absurd hm ?_
      rcases hZ with hZ | hZ
      · obtain ⟨a, ha⟩ := finish_answer hZ
        exact answer_not_mismatch ha
      · exact stops_finish (P := fun r => ¬ r.IsMismatch) (err_not_mismatch q.api) out _ _ hZ

end Served

/-! ## What a request was told -/

def hitOf : Event sig → Option CommitHash
  | ⟨.getFromCache _, hit⟩ => hit
  | _ => none

def readOf : Event sig → Option (RpcResult (FixedBytes 32))
  | ⟨.getCommitment _ _, x⟩ => some x
  | _ => none

/-- The hashes a request had from the cache. -/
def hits (tr : Trace sig) : List CommitHash := tr.filterMap hitOf

/-- The registry's answers to a request, a call that timed out or failed among them. -/
def reads (tr : Trace sig) : List (RpcResult (FixedBytes 32)) := tr.filterMap readOf

theorem filterMap_eventsIn {α : Type} {f : Event sig → Option α} {p : Part}
    (hf : ∀ e, (f e).isSome → Of p e) (tr : Trace sig) :
    (eventsIn p tr).filterMap f = tr.filterMap f := by
  rw [eventsIn, List.filterMap_filter]
  refine List.filterMap_congr fun e _ => ?_
  by_cases hp : Of p e
  · simp [hp]
  · have hnone : f e = none := by
      by_contra h
      exact hp (hf e (Option.isSome_iff_ne_none.2 h))
    simp [hp, hnone]

theorem hits_eventsIn (tr : Trace sig) : hits (eventsIn .commitment tr) = hits tr := by
  refine filterMap_eventsIn (fun e he => ?_) tr
  unfold hitOf at he
  split at he
  · rfl
  · cases he

theorem reads_eventsIn (tr : Trace sig) : reads (eventsIn .commitment tr) = reads tr := by
  refine filterMap_eventsIn (fun e he => ?_) tr
  unfold readOf at he
  split at he
  · rfl
  · cases he

end Teecryptor
