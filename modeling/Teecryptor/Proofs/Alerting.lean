import Teecryptor.Proofs.GateTable

/-!
# The log lines of the commitment gate

Alerts are keyed on the `gate` and `reason` of a log line. A failed commitment check logs one such
line, and a passed one none, or the one that says a stale cached hash was replaced. The exception
is a cached hash that does not fit and whose re-read is not answered: it logs two
(`alerts_iff_reached`).
-/

namespace Teecryptor

open Interact Interact.Prog Rust

/-- The failures of the commitment check. -/
inductive CheckFailure
  | notFound
  | timeout
  | transport
  | mismatch
  deriving DecidableEq, Repr

def CheckFailure.reason : CheckFailure → String
  | notFound => "not_found"
  | timeout => "timeout"
  | transport => "transport"
  | mismatch => "mismatch"

def CheckFailure.response (api : ApiVersion) : CheckFailure → Response
  | notFound => api.retryable .commitmentPending
  | timeout => api.err 504 "commitment_verifier_timeout"
  | transport => api.err 502 "commitment_verifier_error"
  | mismatch => api.err 502 "commitment_mismatch"

/-- How the commitment check of a request comes out. -/
inductive CheckOutcome
  | passed
  | rescued
  | failed (f : CheckFailure)
  deriving DecidableEq, Repr

/-- The reasons that are to be logged with `gate = "commitment"`. -/
def CheckOutcome.alerts : CheckOutcome → List (Option String)
  | passed => []
  | rescued => [some "stale_cache_refreshed"]
  | failed f => [some f.reason]

/-- What the gate makes of the check: in warn-only mode it lets a failed one pass. -/
def CheckOutcome.verdict (warnOnly : Bool) (api : ApiVersion) : CheckOutcome → Except Response Unit
  | passed => .ok ()
  | rescued => .ok ()
  | failed f => refusal warnOnly (f.response api)

/-- The outcome of the check, from the hash the cache gave if it did, the registry's answer if it
was asked, and the hash of the served bytes if there were any. -/
def checkOutcome (hit : Option CommitHash) (read : Option (RpcResult (FixedBytes 32)))
    (actual : Option (FixedBytes 32)) : CheckOutcome :=
  match hit with
  | some cached =>
    if actual.all (· = cached.1) then .passed
    else match read with
      | some (.ok fresh) =>
        if fresh = .zero 32 then .failed .notFound
        else if actual.all (· = fresh) then .rescued
        else .failed .mismatch
      | _ => .failed .mismatch
  | none =>
    match read with
    | some (.ok fresh) =>
      if fresh = .zero 32 then .failed .notFound
      else if actual.all (· = fresh) then .passed
      else .failed .mismatch
    | some .timeout => .failed .timeout
    | some (.error _) => .failed .transport
    | none => .passed

/-- The reason of a line with `gate = "commitment"`. -/
def alertOf : Event sig → Option (Option String)
  | ⟨.log line, _⟩ => if line.gate = "commitment" then some line.reason else none
  | _ => none

def alerts (tr : Trace sig) : List (Option String) := tr.filterMap alertOf

theorem alerts_eventsIn (tr : Trace sig) : alerts (eventsIn .commitment tr) = alerts tr := by
  refine filterMap_eventsIn (fun e he => ?_) tr
  unfold alertOf at he
  split at he
  next line u =>
    split_ifs at he with hg
    · exact if_pos hg
    · cases he
  next => cases he

section

variable {crates : Crates} {cfg : CommitmentConfig} {g : GateCall} {tr : Trace sig}

def GateCall.actual (crates : Crates) (g : GateCall) : Option (FixedBytes 32) :=
  g.served.map crates.keccak256

/-- A cached hash does not fit the served bytes, and the registry does not answer when it is
read again. -/
def RereadUnanswered (hit : Option CommitHash) (read : Option (RpcResult (FixedBytes 32)))
    (actual : Option (FixedBytes 32)) : Prop :=
  ∃ cached x a, hit = some cached ∧ read = some x ∧ Unanswered x ∧ actual = some a ∧ a ≠ cached.1

theorem Fits.all {c : FixedBytes 32} (h : Fits crates g c) :
    (g.actual crates).all (· = c) = true := by
  rcases hs : g.served with _ | d
  · simp [GateCall.actual, hs]
  · simp [GateCall.actual, hs, h d hs]

theorem Misfits.all {c : FixedBytes 32} (h : Misfits crates g c) :
    (g.actual crates).all (· = c) = false := by
  obtain ⟨d, hs, hne⟩ := h
  simp [GateCall.actual, hs, hne]

/-- What a trace has of the cache, the registry and the log. -/
structure Told (tr : Trace sig) (hit : Option CommitHash)
    (read : Option (RpcResult (FixedBytes 32))) (logged : List (Option String)) : Prop where
  hits : hits tr = hit.toList
  reads : reads tr = read.toList
  alerts : alerts tr = logged

theorem alertOf_log (reason : String) (mode : Option String) :
    alertOf ⟨.log (commitmentLog reason mode), ()⟩ = some (some reason) := by
  simp [alertOf, commitmentLog]

theorem alerts_cons_log (reason : String) (mode : Option String) (tr : Trace sig) :
    alerts (⟨.log (commitmentLog reason mode), ()⟩ :: tr) = some reason :: alerts tr :=
  List.filterMap_cons_some (alertOf_log reason mode)

/-- Each run of the gate has the verdict of its outcome, and logs what the outcome says unless it
is the one with a re-read that is not answered. -/
theorem cell_alerts {v : Except Response Unit} (h : GateCell crates cfg g tr v) :
    ∃ hit read logged, Told tr hit read logged
      ∧ v = (checkOutcome hit read (g.actual crates)).verdict cfg.warnOnly g.api
      ∧ (logged = (checkOutcome hit read (g.actual crates)).alerts ↔
        ¬ RereadUnanswered hit read (g.actual crates)) := by
  have hans : ∀ b : FixedBytes 32, ¬ Unanswered (.ok b) := fun b h => by cases h
  cases h
  case absent =>
    refine ⟨none, some (.ok (.zero 32)), [some "not_found"],
      ⟨rfl, rfl, alerts_cons_log _ _ _⟩, ?_, ?_⟩
    · simp [checkOutcome, CheckOutcome.verdict, CheckFailure.response]
    · simp [checkOutcome, CheckOutcome.alerts, CheckFailure.reason, RereadUnanswered]
  case timeout =>
    refine ⟨none, some .timeout, [some "timeout"], ⟨rfl, rfl, alerts_cons_log _ _ _⟩, ?_, ?_⟩
    · simp [checkOutcome, CheckOutcome.verdict, CheckFailure.response]
    · simp [checkOutcome, CheckOutcome.alerts, CheckFailure.reason, RereadUnanswered]
  case transport e =>
    refine ⟨none, some (.error e), [some "transport"], ⟨rfl, rfl, alerts_cons_log _ _ _⟩, ?_, ?_⟩
    · simp [checkOutcome, CheckOutcome.verdict, CheckFailure.response]
    · simp [checkOutcome, CheckOutcome.alerts, CheckFailure.reason, RereadUnanswered]
  case read c hfit =>
    refine ⟨none, some (.ok c.1), [], ⟨rfl, rfl, rfl⟩, ?_, ?_⟩
    · simp [checkOutcome, CheckOutcome.verdict, c.2, hfit.all]
    · simp [checkOutcome, CheckOutcome.alerts, RereadUnanswered, c.2, hfit.all]
  case readMismatch c hmis =>
    refine ⟨none, some (.ok c.1), [some "mismatch"], ⟨rfl, rfl, alerts_cons_log _ _ _⟩, ?_, ?_⟩
    · simp [checkOutcome, CheckOutcome.verdict, CheckFailure.response, c.2, hmis.all]
    · simp [checkOutcome, CheckOutcome.alerts, CheckFailure.reason, RereadUnanswered, c.2, hmis.all]
  case hit c hfit =>
    refine ⟨some c, none, [], ⟨rfl, rfl, rfl⟩, ?_, ?_⟩
    · simp [checkOutcome, CheckOutcome.verdict, hfit.all]
    · simp [checkOutcome, CheckOutcome.alerts, RereadUnanswered, hfit.all]
  case rescued c fresh hmis hfit =>
    refine ⟨some c, some (.ok fresh.1), [some "stale_cache_refreshed"],
      ⟨rfl, rfl, alerts_cons_log _ _ _⟩, ?_, ?_⟩
    · simp [checkOutcome, CheckOutcome.verdict, fresh.2, hmis.all, hfit.all]
    · simp [checkOutcome, CheckOutcome.alerts, RereadUnanswered, fresh.2, hmis.all, hfit.all, hans]
  case mismatch c fresh hmis hmis' =>
    refine ⟨some c, some (.ok fresh.1), [some "mismatch"], ⟨rfl, rfl, alerts_cons_log _ _ _⟩,
      ?_, ?_⟩
    · simp [checkOutcome, CheckOutcome.verdict, CheckFailure.response, fresh.2, hmis.all, hmis'.all]
    · simp [checkOutcome, CheckOutcome.alerts, CheckFailure.reason, RereadUnanswered, fresh.2,
        hmis.all, hmis'.all, hans]
  case gone c hmis =>
    refine ⟨some c, some (.ok (.zero 32)), [some "not_found"],
      ⟨rfl, rfl, alerts_cons_log _ _ _⟩, ?_, ?_⟩
    · simp [checkOutcome, CheckOutcome.verdict, CheckFailure.response, hmis.all]
    · simp [checkOutcome, CheckOutcome.alerts, CheckFailure.reason, RereadUnanswered, hmis.all, hans]
  case unreached c x hmis hx =>
    refine ⟨some c, some x, [some "refresh_failed", some "mismatch"], ⟨rfl, rfl, ?_⟩, ?_, ?_⟩
    · exact (alerts_cons_log _ _ _).trans (congrArg _ (alerts_cons_log _ _ _))
    · cases hx <;>
        simp [checkOutcome, CheckOutcome.verdict, CheckFailure.response, hmis.all]
    · obtain ⟨d, hd, hne⟩ := hmis
      have hstale : RereadUnanswered (some c) (some x) (g.actual crates) :=
        ⟨c, x, crates.keccak256 d, rfl, rfl, hx, by simp [GateCall.actual, hd], hne⟩
      refine iff_of_false (fun heq => ?_) (not_not.2 hstale)
      have hlen := congrArg List.length heq
      have : (checkOutcome (some c) (some x) (g.actual crates)).alerts.length ≤ 1 := by
        rcases checkOutcome (some c) (some x) (g.actual crates) with _ | _ | f
        · exact Nat.zero_le _
        · exact le_refl _
        · exact le_refl _
      simp only [List.length_cons, List.length_nil] at hlen
      omega

end

/-- The outcome of a request's commitment check, from what it was told and served. -/
def outcomeOf (st : AppState) (handle : Handle) (api : ApiVersion) (tr : Trace sig) :
    CheckOutcome :=
  checkOutcome (hits tr).head? (reads tr).head?
    ((served st handle api tr).map st.crates.keccak256)

/-- A request that reaches the gates has the verdict of its check's outcome, and logs exactly the
lines of that outcome unless a cached hash does not fit and its re-read is not answered. -/
theorem alerts_iff_reached (st : AppState) {cfg : CommitmentConfig}
    (hv : st.commitmentVerifier = some cfg) {req : Request} {q : Ask} (hq : req.ask = some q)
    {tr : Trace sig} {resp : Response} (h : Run (serve st req) tr resp)
    (hpermit : (⟨.tryAdmit, true⟩ : Event sig) ∈ tr) :
    ∃ handle, Handle.parse q.ctTempkey = some handle
      ∧ GateDecides st handle q.hostChainId q.acp q.api tr
        ((outcomeOf st handle q.api tr).verdict cfg.warnOnly q.api) (fun r => resp = r)
      ∧ (alerts tr = (outcomeOf st handle q.api tr).alerts ↔
        ¬ RereadUnanswered (hits tr).head? (reads tr).head?
          ((served st handle q.api tr).map st.crates.keccak256)) := by
  obtain ⟨handle, v, hp, hgate, hdecides⟩ := serve_gate hq hv h hpermit
  obtain ⟨hit, read, logged, ⟨hhits, hreads, hlogged⟩, hverdict, hiff⟩ :=
    cell_alerts (gate_cells hgate)
  rw [hits_eventsIn] at hhits
  rw [reads_eventsIn] at hreads
  rw [alerts_eventsIn] at hlogged
  have hhit : (hits tr).head? = hit := by rw [hhits, Option.head?_toList]
  have hread : (reads tr).head? = read := by rw [hreads, Option.head?_toList]
  refine ⟨handle, hp, ?_, ?_⟩
  · unfold outcomeOf
    rw [hhit, hread]
    exact hverdict ▸ hdecides
  · unfold outcomeOf
    rw [hhit, hread, hlogged]
    exact hiff

/-- A hash that the registry does not hold any more. -/
def staleHash : CommitHash := ⟨.ofNat 32 2, by decide +kernel⟩

/-- A request whose cached hash is stale, and whose re-read of the registry times out. -/
def staleRun : Trace sig :=
  [⟨.newUuid, "id"⟩, ⟨.tryAdmit, true⟩,
    ⟨.isPubliclyAllowed sampleChain sampleHandle.u256, .ok true⟩,
    ⟨.getFromCache (1, sampleHandle.u256), some staleHash⟩,
    ⟨.getStoredCt sampleHandle.asStr, sampleReply⟩,
    ⟨.getCommitment (.zero 32) (toBeBytes sampleHandle.u256), .timeout⟩,
    noteLine "refresh_failed", failLine false "mismatch", ⟨.dropAdmit, ()⟩]

theorem stale_serve : Run (serve (sampleState false) (sampleRequest 1)) staleRun
    (ApiVersion.v1.err 502 "commitment_mismatch") := by
  refine (run_serve (q := sampleAsk 1) rfl).2 (.inr ⟨[⟨.newUuid, "id"⟩], staleRun.tail, _, rfl,
    sample_enter 1, .inl (run_fetchDecrypt.2 (.inr ⟨(staleRun.drop 2).dropLast, rfl,
      run_exceptBind.2 (.inr ⟨(staleRun.drop 2).take 2, (staleRun.drop 4).dropLast,
        some ⟨staleHash, true⟩, rfl, ?_, ?_⟩)⟩))⟩)
  · rw [quiet_plain]
    refine run_gates.2 ⟨[⟨.isPubliclyAllowed sampleChain sampleHandle.u256, .ok true⟩],
      [⟨.getFromCache (1, sampleHandle.u256), some staleHash⟩], none, .ok (some ⟨staleHash, true⟩),
      .append _ _, ?_, ?_, rfl⟩
    · refine run_enforceAcp.2 (.inl ⟨rfl, ?_⟩)
      exact run_attemptBind.2 ⟨.ok true, [], rfl, run_checkAllowed_ok.2 ⟨rfl, rfl⟩⟩
    · refine run_enforceCommitment.2 (.inl ⟨_, rfl, ?_⟩)
      exact (run_fetchCommitment _ _ _).2 (.inl ⟨staleHash, rfl, rfl⟩)
  · refine run_openRow.2 ⟨sampleReply, _, rfl, .inr
      ⟨sampleRow, servedRow_eq_ok.2 ⟨sample_row, rfl, rfl, rfl⟩, run_exceptBind.2 (.inl
        ⟨_, rfl, ?_⟩)⟩⟩
    have hne : (FixedBytes.ofNat 32 1) ≠ .ofNat 32 2 := by decide +kernel
    simp only [integrityGate, sampleState]
    refine (run_integrity_reread ⟨hne, rfl⟩).2 ⟨.error (.timeout 1), [_],
      [noteLine "refresh_failed", failLine false "mismatch"], rfl,
      (run_refreshCommitment _ _ _).2 (.inr (.inr (.inl ⟨rfl, rfl⟩))), [failLine false "mismatch"],
      rfl, run_judgeCommitment.2 (.inr ⟨hne, run_refuse.2 (.inr ⟨rfl, rfl, rfl⟩)⟩)⟩

/-- That request is refused by the gate and logs two lines. -/
theorem stale_unanswered_alerts_twice :
    Run (serve (sampleState false) (sampleRequest 1)) staleRun
        (ApiVersion.v1.err 502 "commitment_mismatch")
      ∧ (⟨.tryAdmit, true⟩ : Event sig) ∈ staleRun
      ∧ alerts staleRun = [some "refresh_failed", some "mismatch"]
      ∧ ¬ ∃ reason, alerts staleRun = [reason] := by
  have halerts : alerts staleRun = [some "refresh_failed", some "mismatch"] := rfl
  refine ⟨stale_serve, by simp [staleRun], halerts, ?_⟩
  rintro ⟨reason, h⟩
  rw [halerts] at h
  simp at h

/-- A request for which the registry holds nothing. -/
def missingRun : Trace sig :=
  [⟨.newUuid, "id"⟩, ⟨.tryAdmit, true⟩,
    ⟨.isPubliclyAllowed sampleChain sampleHandle.u256, .ok true⟩,
    ⟨.getFromCache (1, sampleHandle.u256), none⟩,
    ⟨.getCommitment (.zero 32) (toBeBytes sampleHandle.u256), .ok (.zero 32)⟩,
    ⟨.evictFromCache (1, sampleHandle.u256), ()⟩, failLine false "not_found", ⟨.dropAdmit, ()⟩]

theorem missing_refused : Run (serve (sampleState false) (sampleRequest 1)) missingRun
    (ApiVersion.v1.retryable .commitmentPending) := by
  refine (run_serve (q := sampleAsk 1) rfl).2 (.inr ⟨[⟨.newUuid, "id"⟩], missingRun.tail, _, rfl,
    sample_enter 1, .inl (run_fetchDecrypt.2 (.inr ⟨(missingRun.drop 2).dropLast, rfl,
      run_exceptBind.2 (.inl ⟨_, rfl, ?_⟩)⟩))⟩)
  rw [quiet_plain]
  refine run_gates.2 ⟨[⟨.isPubliclyAllowed sampleChain sampleHandle.u256, .ok true⟩],
    (missingRun.drop 3).dropLast, none, .error _, .append _ _, ?_, ?_, rfl⟩
  · refine run_enforceAcp.2 (.inl ⟨rfl, ?_⟩)
    exact run_attemptBind.2 ⟨.ok true, [], rfl, run_checkAllowed_ok.2 ⟨rfl, rfl⟩⟩
  · refine run_enforceCommitment.2 (.inr ⟨.notFound, (missingRun.drop 3).take 3, _, rfl, ?_,
      run_refuse.2 (.inr ⟨rfl, rfl, rfl⟩)⟩)
    refine (run_fetchCommitment _ _ _).2 (.inr ⟨.error .notFound, _, rfl, rfl, ?_⟩)
    exact (run_refreshCommitment _ _ _).2 (.inr (.inl ⟨rfl, rfl⟩))

/-- That request is refused, and logs the line of its outcome. -/
theorem alerts_iff_reached_sample :
    alerts missingRun = (outcomeOf (sampleState false) sampleHandle .v1 missingRun).alerts
      ∧ outcomeOf (sampleState false) sampleHandle .v1 missingRun = .failed .notFound
      ∧ alerts missingRun = [some "not_found"] := by
  have hq : (sampleRequest 1).ask = some (sampleAsk 1) := rfl
  obtain ⟨handle, hp, -, hiff⟩ := alerts_iff_reached (sampleState false) rfl hq missing_refused
    (by simp [missingRun])
  obtain rfl : sampleHandle = handle := Option.some.inj (sample_parse.symm.trans hp)
  have hhits : hits missingRun = [] := rfl
  have hreads : reads missingRun = [.ok (.zero 32)] := rfl
  have houtcome :
      outcomeOf (sampleState false) sampleHandle .v1 missingRun = .failed .notFound := by
    simp [outcomeOf, hhits, hreads, checkOutcome]
  have halerts := hiff.2 (by
    rintro ⟨cached, x, a, hhit, -⟩
    cases hhit)
  have hline : (CheckOutcome.failed .notFound).alerts = [some "not_found"] := rfl
  refine ⟨halerts, houtcome, ?_⟩
  rw [← hline, ← houtcome]
  exact halerts

end Teecryptor
