import Teecryptor.Proofs.Labels

/-!
# How many series there can be

Every label comes from a list that the code and the chains served fix, so what callers send cannot
add to the series that are recorded (`series_bounded`).
-/

namespace Teecryptor

open Interact Interact.Prog Rust

/-- The outcomes a decrypt record can have. -/
def outcomes : List String :=
  "ok" :: "rejected" :: "commitment_mismatch" :: "overloaded" :: "ct_not_ready"
    :: "commitment_pending" :: errorCodes

/-- The statuses a response can have. -/
def statuses : List ℕ := [200, 204, 400, 401, 403, 404, 405, 413, 415, 422, 428, 500, 502, 503, 504]

def methodLabels : List String :=
  ["GET", "POST", "OPTIONS", "HEAD", "PUT", "DELETE", "PATCH", "OTHER"]

/-- The templates of the router, and what stands for none. -/
def routeLabels : List String :=
  ["/healthz", "/decrypt", "/sealoutput", "/v2/decrypt", "/v2/decrypt/\x7brequest_id\x7d",
    "/v2/sealoutput", "/v2/sealoutput/\x7brequest_id\x7d", "/signerAddress", "unmatched"]

def chainLabels (served : List UInt64) : List String :=
  "unknown" :: "other" :: served.map fun id => toString id.toNat

def widths : List (Option String) :=
  none :: [EncryptionType.bool, .u8, .u16, .u32, .u64, .u128, .address].map (some ·.asStr)

/-- All records on the transport instruments. -/
def httpSeries : List HttpRecord :=
  methodLabels.flatMap fun method => routeLabels.flatMap fun route =>
    statuses.map fun status => ⟨method, route, status⟩

/-- All records on the decrypt instruments of a deployment that serves the chains `served`. -/
def decryptSeries (served : List UInt64) : List DecryptRecord :=
  decryptRoutes.flatMap fun route => (chainLabels served).flatMap fun chain =>
    ["present", "absent", "unknown"].flatMap fun acp => widths.flatMap fun width =>
      outcomes.map fun outcome =>
        ⟨route, chain, acp, width.getD "unknown", outcome, width.map (route, ·)⟩

theorem length_httpSeries : httpSeries.length = 8 * (9 * 15) := by
  simp only [httpSeries, List.length_flatMap, List.length_map, List.map_const',
    List.sum_replicate_nat]
  rfl

theorem length_decryptSeries (served : List UInt64) :
    (decryptSeries served).length = 4 * ((served.length + 2) * (3 * (8 * 28))) := by
  have hchains : (chainLabels served).length = served.length + 2 := by simp [chainLabels]
  simp only [decryptSeries, List.length_flatMap, List.length_map, List.map_const',
    List.sum_replicate_nat, hchains]
  rfl

section Bounded

variable {st : AppState} {svc : Service} {axum : Extractors} {req : HttpRequest} {tr : Trace sig}
  {reply : Reply}

/-- The response is counted in one of the series. -/
def Counted (outcome : Option String) (status : ℕ) : Prop :=
  outcomeLabel outcome status ∈ outcomes ∧ status ∈ statuses

theorem counted_err {status : ℕ} {code : String} (hs : status ∈ statuses) (hc : code ∈ outcomes) :
    Counted (some code) status := ⟨hc, hs⟩

theorem counted_retryable (api : ApiVersion) (reason : RetryReason) :
    Counted (api.retryable reason).outcome (api.retryable reason).status := by
  cases api <;> cases reason
  all_goals exact ⟨by decide, by decide⟩

theorem counted_none {status : ℕ} (hs : status ∈ statuses) : Counted none status := by
  refine ⟨?_, hs⟩
  unfold outcomeLabel
  split_ifs
  · decide
  · decide

theorem counted_reject (api : ApiVersion) (rejection : JsonRejection) :
    Counted (api.reject rejection).outcome (api.reject rejection).status := by
  have hs : rejection.status ∈ statuses := by
    cases rejection
    all_goals decide
  exact counted_err hs (by decide : "rejected" ∈ outcomes)

theorem counted_serve {r : Request} {resp : Response} (h : Run (serve st r) tr resp) :
    Counted resp.outcome resp.status := by
  rcases hq : r.ask with _ | q
  · rcases unasked_cases hq with ⟨api, rejection, hserve⟩ | ⟨id, rfl⟩ | ⟨id, rfl⟩
    · rw [hserve] at h
      rw [(run_pure.1 h).2]
      exact counted_reject api rejection
    · obtain ⟨_ | _, tr', -, h'⟩ := run_performBind.1 h
      · rw [(run_pure.1 h').2]
        exact counted_none (by decide : 404 ∈ statuses)
      · rw [(run_pure.1 h').2]
        exact counted_none (by decide : 200 ∈ statuses)
    · obtain ⟨_ | _, tr', -, h'⟩ := run_performBind.1 h
      · rw [(run_pure.1 h').2]
        exact counted_none (by decide : 404 ∈ statuses)
      · rw [(run_pure.1 h').2]
        exact counted_none (by decide : 200 ∈ statuses)
  · have herr : ∀ e ∈ apiErrors, e.1 ∈ statuses ∧ e.2 ∈ outcomes := by decide
    rcases serve_ends (P := fun r => Counted r.outcome r.status) hq
      (fun status code he => counted_err (herr _ he).1 (herr _ he).2) (counted_retryable q.api)
      (counted_err (by decide : 502 ∈ statuses) (by decide)) h with
      hc | ⟨e, trE, trF, trZ, out, -, -, -, hZ⟩
    · exact hc
    · obtain ⟨a, ha⟩ := finish_answer hZ
      have hstatus : resp.status = 200 := by
        unfold Response.answer at ha
        split_ifs at ha with hs
        exact hs
      rw [finish_outcome hZ, hstatus]
      exact counted_none (by decide)

theorem counted_handler {route : Route}
    (h : Run (Labelled.call svc axum req route : Task Reply) tr reply) :
    Counted reply.outcome reply.status := by
  have hok : Counted none 200 := counted_none (by decide)
  have hget : ∀ {handler : Task Reply} {tr reply},
      (∀ tr reply, Run handler tr reply → Counted reply.outcome reply.status) →
      Run (getRoute req handler) tr reply → Counted reply.outcome reply.status := by
    intro handler tr reply hh h
    unfold getRoute at h
    split at h
    · exact hh _ _ h
    · obtain ⟨tr₁, tr₂, reply', rfl, h₁, h₂⟩ := run_bind.1 h
      rw [(run_pure.1 h₂).2]
      rcases reply' with resp | address
      · have hc := hh _ _ h₁
        exact hc
      · exact hok
    · rw [(run_pure.1 h).2]
      exact counted_none (by decide : 405 ∈ statuses)
  have hpost : ∀ {r : Request} {tr reply},
      Run (Labelled.postRoute req (serveApi svc r)) tr reply →
      Counted reply.outcome reply.status := by
    intro r tr reply h
    unfold Labelled.postRoute at h
    split at h
    · obtain ⟨resp, rfl, hserve⟩ := run_serveApi h
      exact counted_serve hserve
    · rw [(run_pure.1 h).2]
      exact counted_none (by decide : 405 ∈ statuses)
  have hpoll : ∀ {segment : List Char} {poll : String → Request} {tr reply},
      Run (pollRoute svc axum req segment poll) tr reply → Counted reply.outcome reply.status := by
    intro segment poll tr reply h
    refine hget (fun tr reply h => ?_) h
    split at h
    · obtain ⟨resp, rfl, hserve⟩ := run_serveApi h
      exact counted_serve hserve
    · rw [(run_pure.1 h).2]
      exact counted_none (by decide : 400 ∈ statuses)
  cases route with
  | healthz =>
    refine hget (fun tr reply h => ?_) h
    rw [(run_pure.1 h).2]
    unfold handleHealthz
    split_ifs
    · exact hok
    · exact counted_none (by decide : 503 ∈ statuses)
  | decrypt | sealoutput | v2Decrypt | v2Sealoutput => exact hpost h
  | v2DecryptStatus segment | v2SealoutputStatus segment => exact hpoll h
  | signerAddress =>
    refine hget (fun tr reply h => ?_) h
    rw [(run_pure.1 h).2]
    exact hok

theorem counted_router {sample : Option DecryptSample}
    (h : Run (router svc axum req) tr (reply, sample)) : Counted reply.outcome reply.status := by
  obtain ⟨hrun, -⟩ := run_trackMetrics h
  unfold Labelled.routed Labelled.corsLayer at hrun
  split_ifs at hrun
  · rw [(run_pure.1 hrun).2]
    exact counted_none (by decide : 200 ∈ statuses)
  · rcases hm : matchPath req.path with _ | route
    · rw [hm] at hrun
      rw [(run_pure.1 hrun).2]
      exact counted_none (by decide : 404 ∈ statuses)
    · rw [hm] at hrun
      exact counted_handler hrun

theorem methodLabel_mem (method : Method) : methodLabel method ∈ methodLabels := by
  unfold methodLabel
  split
  all_goals decide

theorem routeLabel_mem (path : String) :
    routeLabel ((matchPath path).map Route.template) ∈ routeLabels := by
  rcases matchPath path with _ | route
  · decide
  · cases route
    all_goals simp [routeLabel, Route.template, routeLabels]

theorem label_mem (served : List UInt64) (chain : Option UInt64) :
    (ChainLabels.new served).label chain ∈ chainLabels served := by
  rcases chain with _ | chain
  · exact List.mem_cons_self
  · rw [label_new]
    split_ifs with h
    · exact List.mem_cons_of_mem _ (List.mem_cons_of_mem _ (List.mem_map_of_mem h))
    · exact List.mem_cons_of_mem _ List.mem_cons_self

theorem observeDecrypt_mem (served : List UInt64) {route : String} (hroute : route ∈ decryptRoutes)
    (labels : DecryptLabels) {outcome : Option String} {status : ℕ}
    (h : Counted outcome status) :
    observeDecrypt (.new served) route labels outcome status ∈ decryptSeries served := by
  have hwidth : labels.encryptionType.map EncryptionType.asStr ∈ widths := by
    rcases labels.encryptionType with _ | ty
    · decide
    · cases ty
      all_goals decide
  have hacp : acpLabel labels.acpPresented ∈ ["present", "absent", "unknown"] := by
    rcases labels.acpPresented with _ | _ | _
    all_goals decide
  simp only [decryptSeries, List.mem_flatMap, List.mem_map]
  refine ⟨route, hroute, _, label_mem served labels.hostChainId, _, hacp, _, hwidth, _, h.1, ?_⟩
  unfold observeDecrypt
  rcases labels.encryptionType with _ | ty
  · rfl
  · rfl

end Bounded

/-- No caller can mint a series. Whatever comes in as method, path, headers and body, and whatever
the backends answer, every record on the transport instruments is one of 1080, and every record on
the decrypt instruments is one of 2688 for each chain that is served and for two more. -/
theorem series_bounded (svc : Service) (served : List UInt64) (axum : Extractors)
    (req : HttpRequest) :
    (httpSeries.length = 1080 ∧ (decryptSeries served).length = 2688 * (served.length + 2))
    ∧ ∀ tr reply http record,
      Run (Labelled.router svc (.new served) axum req) tr (reply, http, record) →
        http ∈ httpSeries ∧ ∀ r, record = some r → r ∈ decryptSeries served := by
  refine ⟨⟨length_httpSeries, ?_⟩, fun tr reply http record h => ?_⟩
  · rw [length_decryptSeries]
    omega
  · obtain ⟨⟨sample, hrun⟩, rfl, rfl⟩ := run_labelledRouter.1 h
    have hcounted := counted_router hrun
    refine ⟨?_, fun r hr => ?_⟩
    · simp only [httpSeries, List.mem_flatMap, List.mem_map]
      exact ⟨_, methodLabel_mem _, _, routeLabel_mem _, _, hcounted.2, rfl⟩
    · obtain ⟨route, hroute, rfl⟩ := Option.map_eq_some_iff.1 hr
      obtain ⟨-, hmem⟩ := Option.filter_eq_some_iff.1 hroute
      exact observeDecrypt_mem served (by simpa using hmem) _ hcounted

end Teecryptor
