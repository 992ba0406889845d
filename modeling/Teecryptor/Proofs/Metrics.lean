import Teecryptor.Proofs.Soundness
import Teecryptor.Router

/-!
# What the decrypt metric says of a response

The outcome label is read off a response: the code attached to it, or else its status. It is true
to the response, except of an `OPTIONS` request on a decrypt route: the CORS layer's empty 200 is
counted as `ok` (`outcome_truthful_iff`).
-/

namespace Teecryptor

open Interact Interact.Prog Rust

/-- The error code or the retry reason a client reads in a response. -/
def Reply.received : Reply → Option String
  | .api ⟨_, _, .error r, _⟩ => some r.error
  | .api resp => resp.retryReason
  | .signerAddress _ => none

/-- The reply is a 200 with the result of a decryption or a sealing. -/
def Reply.CarriesResult : Reply → Prop
  | .api resp => resp.answer.isSome
  | .signerAddress _ => False

/-- The request's path is one of the four decrypt routes. -/
def HttpRequest.OnDecryptRoute (req : HttpRequest) : Prop :=
  ∃ route, matchPath req.path = some route ∧ route.template ∈ decryptRoutes

/-- The request goes to one of the four handlers. -/
def HttpRequest.Handled (req : HttpRequest) : Prop := req.method = .post ∧ req.OnDecryptRoute

/-- What is counted of a response is true to it: `ok` is counted for the results of the four
handlers and nothing else, and any other outcome is the code or reason the client received, or
`rejected` where no handler answered. -/
def Truthful (req : HttpRequest) (reply : Reply) (sample : Option DecryptSample) : Prop :=
  (sample.map (·.outcome) = some "ok" ↔ req.Handled ∧ reply.CarriesResult)
    ∧ ∀ s, sample = some s → s.outcome ≠ "ok" →
      reply.received = some s.outcome ∨ (¬ req.Handled ∧ s.outcome = "rejected")

/-! ## The four handlers -/

/-- A response of one of the four handlers: it carries a result and no outcome, or no result and
as its outcome what the client receives. -/
inductive Coded (resp : Response) : Prop
  | result (h : resp.answer.isSome) (ho : resp.outcome = none)
  | failure (code : String) (h : resp.answer = none) (ho : resp.outcome = some code)
      (hc : code ≠ "ok") (hr : (Reply.api resp).received = some code)

theorem coded_err {code : String} (hc : code ≠ "ok") (api : ApiVersion) (status : ℕ) :
    Coded (api.err status code) :=
  .failure code (answer_err _ _ _) rfl hc rfl

theorem coded_retryable (api : ApiVersion) (reason : RetryReason) :
    Coded (api.retryable reason) := by
  have hc : reason.asStr ≠ "ok" := by cases reason <;> decide
  cases api
  · exact coded_err hc _ _
  · exact .failure reason.asStr (answer_retryable _ _) rfl hc rfl

theorem coded_serve {st : AppState} {req : Request} (hreq : req.IsSubmission) {tr : Trace sig}
    {resp : Response} (h : Run (serve st req) tr resp) : Coded resp := by
  rcases hq : req.ask with _ | q
  · rcases serve_of_ask_none hq h with ⟨api, rejection, rfl⟩ | ⟨hnot, -⟩
    · exact coded_err (by decide) _ _
    · exact absurd hreq hnot
  · have hcode : ∀ code ∈ errorCodes, code ≠ "ok" := by decide
    rcases serve_ends hq
      (fun status code hc => coded_err (hcode code (code_mem_errorCodes hc)) _ status)
      (coded_retryable _) (coded_err (by decide) _ _) h with
      hl | ⟨e, trE, trF, trZ, out, -, -, -, hZ⟩
    · exact hl
    · obtain ⟨a, ha⟩ := finish_answer hZ
      exact .result (by rw [ha]; rfl) (finish_outcome hZ)

/-! ## The router -/

section

variable {svc : Service} {axum : Extractors} {req : HttpRequest} {tr : Trace sig} {reply : Reply}

theorem run_trackMetrics {route : Option String} {next : Task Reply}
    {sample : Option DecryptSample} (h : Run (trackMetrics route next) tr (reply, sample)) :
    Run next tr reply ∧ sample = (route.filter (decryptRoutes.contains ·)).map fun route =>
      ⟨route, outcomeLabel reply.outcome reply.status⟩ := by
  rw [trackMetrics, bind_eq, run_bind] at h
  obtain ⟨tr₁, tr₂, r, rfl, h₁, h₂⟩ := h
  obtain ⟨rfl, hr⟩ := run_pure.1 h₂
  cases hr
  exact ⟨by simpa using h₁, rfl⟩

theorem run_serveApi {r : Request} (h : Run (serveApi svc r) tr reply) :
    ∃ resp, reply = .api resp ∧ Run (serve svc.st r) tr resp := by
  rw [serveApi, Labelled.serveApi, serve_plain, bind_eq, run_bind] at h
  obtain ⟨tr₁, tr₂, resp, rfl, h₁, h₂⟩ := h
  obtain ⟨rfl, rfl⟩ := run_pure.1 h₂
  exact ⟨resp, rfl, by simpa using h₁⟩

/-- The four decrypt routes are `post` routes. -/
theorem call_decryptRoute (svc : Service) (axum : Extractors) (req : HttpRequest) {route : Route}
    (h : route.template ∈ decryptRoutes) :
    ∃ r : Request, Labelled.call svc axum req route
      = Labelled.postRoute req (serveApi svc r) ∧ r.IsSubmission := by
  cases route
  case decrypt => exact ⟨_, rfl, trivial⟩
  case sealoutput => exact ⟨_, rfl, trivial⟩
  case v2Decrypt => exact ⟨_, rfl, trivial⟩
  case v2Sealoutput => exact ⟨_, rfl, trivial⟩
  all_goals simp [Route.template, decryptRoutes] at h

theorem outcomeLabel_coded {resp : Response} (h : Coded resp) :
    (outcomeLabel resp.outcome resp.status = "ok" ↔ resp.answer.isSome)
      ∧ (outcomeLabel resp.outcome resp.status ≠ "ok" →
        (Reply.api resp).received = some (outcomeLabel resp.outcome resp.status)) := by
  rcases h with ⟨hans, ho⟩ | ⟨code, hans, ho, hc, hr⟩
  · have hstatus : resp.status = 200 := by
      unfold Response.answer at hans
      split_ifs at hans with hs
      · exact hs
      · cases hans
    have hlabel : outcomeLabel resp.outcome resp.status = "ok" := by
      rw [ho, hstatus]
      rfl
    exact ⟨iff_of_true hlabel hans, fun hne => absurd hlabel hne⟩
  · have hlabel : outcomeLabel resp.outcome resp.status = code := by
      rw [ho]
      rfl
    rw [hlabel, hans]
    exact ⟨iff_of_false hc (by simp), fun _ => hr⟩

/-- On a decrypt route every response of the route itself is counted for what it is. -/
theorem truthful_decryptRoute {route : Route} (hm : matchPath req.path = some route)
    (hroute : route.template ∈ decryptRoutes)
    (h : Run (Labelled.call svc axum req route : Task Reply) tr reply) :
    Truthful req reply (some ⟨route.template, outcomeLabel reply.outcome reply.status⟩) := by
  have hon : req.OnDecryptRoute := ⟨route, hm, hroute⟩
  obtain ⟨r, hcall, hr⟩ := call_decryptRoute svc axum req hroute
  rw [hcall] at h
  unfold Labelled.postRoute at h
  split at h
  next hpost =>
    obtain ⟨resp, rfl, hserve⟩ := run_serveApi h
    obtain ⟨hok, hreceived⟩ := outcomeLabel_coded (coded_serve hr hserve)
    have hhandled : req.Handled := ⟨hpost, hon⟩
    refine ⟨?_, ?_⟩
    · simp only [Option.map_some, Option.some.injEq, hhandled, true_and]
      exact hok
    · intro s hs hne
      cases hs
      exact .inl (hreceived hne)
  next hpost =>
    obtain ⟨-, rfl⟩ := run_pure.1 h
    have hnot : ¬ req.Handled := fun hh => hpost hh.1
    have hlabel : outcomeLabel (Reply.ofStatus 405).outcome (Reply.ofStatus 405).status
        = "rejected" := rfl
    rw [hlabel]
    refine ⟨iff_of_false (by simp) fun hh => hnot hh.1, fun s hs _ => .inr ⟨hnot, ?_⟩⟩
    cases hs
    rfl

end

/-- Every response is counted for what it is, unless it answers an `OPTIONS` request on a decrypt
route. -/
theorem outcome_truthful_iff (svc : Service) (axum : Extractors) (req : HttpRequest)
    {tr : Trace sig} {reply : Reply} {sample : Option DecryptSample}
    (h : Run (router svc axum req) tr (reply, sample)) :
    Truthful req reply sample ↔ ¬ (req.method = .options ∧ req.OnDecryptRoute) := by
  obtain ⟨hnext, rfl⟩ := run_trackMetrics h
  by_cases hon : req.OnDecryptRoute
  · obtain ⟨route, hm, hroute⟩ := id hon
    have hsample : ((matchPath req.path).map Route.template).filter (decryptRoutes.contains ·)
        = some route.template := by
      simp [hm, hroute]
    rw [hsample, Option.map_some]
    simp only [Labelled.routed, hm] at hnext
    unfold Labelled.corsLayer at hnext
    split_ifs at hnext with hopt
    · -- the empty 200 has no outcome, and its status makes it `ok`
      obtain ⟨-, rfl⟩ := run_pure.1 hnext
      refine iff_of_false (fun ht => ?_) (not_not.2 ⟨hopt, hon⟩)
      have hhandled := (ht.1.1 rfl).1
      rw [HttpRequest.Handled, hopt] at hhandled
      cases hhandled.1
    · exact iff_of_true (truthful_decryptRoute hm hroute hnext) fun hh => hopt hh.1
  · have hsample : ((matchPath req.path).map Route.template).filter (decryptRoutes.contains ·)
        = none := by
      rw [Option.filter_eq_none_iff]
      rintro template ht hc
      obtain ⟨route, hm, rfl⟩ := Option.map_eq_some_iff.1 ht
      exact hon ⟨route, hm, by simpa using hc⟩
    rw [hsample, Option.map_none]
    refine iff_of_true ⟨iff_of_false (by simp) fun hh => hon hh.1.2, ?_⟩ fun hh => hon hh.2
    intro s hs
    cases hs

def sampleService : Service := ⟨sampleState false, true, none⟩

/-- Every body is the sample's public decrypt. -/
def sampleExtractors : Extractors where
  headers := fun _ => none
  decryptJson := fun _ => .ok ⟨String.ofList sampleDigits, 1, none⟩
  sealOutputJson := fun _ => .error .jsonDataError
  decodeSegment := fun seg => some (String.ofList seg)

/-- A decrypted request is counted as `ok`. -/
theorem outcome_truthful_iff_sample : ∃ reply sample, reply.CarriesResult
    ∧ Truthful ⟨.post, "/decrypt", [], []⟩ reply (some sample) := by
  have hserve : Run (serveApi sampleService (sampleRequest 1)) (⟨.newUuid, "id"⟩ :: sampleFetch)
      (.api sampleResponse) := by
    rw [serveApi, Labelled.serveApi, serve_plain, bind_eq, run_bind]
    exact ⟨_, [], sampleResponse, by simp, sample_serve false, run_pure.2 ⟨rfl, rfl⟩⟩
  have hrun : Run (router sampleService sampleExtractors ⟨.post, "/decrypt", [], []⟩)
      (⟨.newUuid, "id"⟩ :: sampleFetch) (.api sampleResponse, some ⟨"/decrypt", "ok"⟩) := by
    rw [router, trackMetrics, bind_eq, run_bind]
    exact ⟨_, [], .api sampleResponse, by simp, hserve, run_pure.2 ⟨rfl, rfl⟩⟩
  refine ⟨.api sampleResponse, ⟨"/decrypt", "ok"⟩, rfl, (outcome_truthful_iff _ _ _ hrun).2 ?_⟩
  rintro ⟨hopt, -⟩
  cases hopt

/-- A browser's preflight to a decrypt route is counted as `ok`, and carries no result. -/
theorem preflight_counted_ok :
    Run (router sampleService sampleExtractors ⟨.options, "/decrypt", [], []⟩) []
        (.ofStatus 200, some ⟨"/decrypt", "ok"⟩)
      ∧ ¬ (Reply.ofStatus 200).CarriesResult
      ∧ ¬ Truthful ⟨.options, "/decrypt", [], []⟩ (.ofStatus 200) (some ⟨"/decrypt", "ok"⟩) := by
  refine ⟨?_, ?_, ?_⟩
  · rw [router, trackMetrics, bind_eq, run_bind]
    exact ⟨[], [], .ofStatus 200, rfl, run_pure.2 ⟨rfl, rfl⟩, run_pure.2 ⟨rfl, rfl⟩⟩
  · simp [Reply.CarriesResult, Reply.ofStatus, Response.answer, Body.answer]
  · intro h
    cases (h.1.1 rfl).1.1

end Teecryptor
