import Teecryptor.Labels
import Teecryptor.Proofs.Concurrency
import Teecryptor.Proofs.Metrics

/-!
# The labels say what the request did

The handlers with labels run as the handlers do, and a request's labels are what its events write:
the chain and the ACP with its id, and the type with its CPU permit. So what is recorded of a
response is true of the request (`labels_truthful`).
-/

namespace Teecryptor

open Interact Interact.Prog Rust

/-! ## The handlers with labels are the handlers -/

/-- The type the handle of the request has, if it has one that is served. -/
def Ask.width (q : Ask) : Option EncryptionType :=
  (Handle.parse q.ctTempkey).bind fun handle =>
    (EncryptionType.fromI32 (handleType (toBeBytes handle.u256)).toNat).toOption

def Ask.setWidth (q : Ask) (labels : DecryptLabels) : DecryptLabels :=
  match q.width with
  | some ty => labels.setEncryptionType ty
  | none => labels

/-- What the request writes at an event: the chain and the ACP when it has its id, and the type when
it takes a CPU permit. -/
def Ask.writes (q : Ask) (e : Event sig) : DecryptLabels → DecryptLabels :=
  match e.1 with
  | .newUuid => fun labels => (labels.setHostChainId q.hostChainId).setAcpPresented q.acp.isSome
  | .acquireDecrypt => q.setWidth
  | _ => id

section Tracks

variable {q : Ask} {st : AppState} {handle : Handle} {hostChainId : UInt64} {acp : Option AcpData}
  {api : ApiVersion} {ε α : Type}

theorem writes_cases (q : Ask) (e : Event sig) :
    (e.1 = .newUuid ∧ q.writes e
        = fun labels => (labels.setHostChainId q.hostChainId).setAcpPresented q.acp.isSome)
      ∨ (e.1 = .acquireDecrypt ∧ q.writes e = q.setWidth)
      ∨ (e.1 ≠ .newUuid ∧ e.1 ≠ .acquireDecrypt ∧ q.writes e = id) := by
  obtain ⟨o, x⟩ := e
  cases o
  case newUuid => exact .inl ⟨rfl, rfl⟩
  case acquireDecrypt => exact .inr (.inl ⟨rfl, rfl⟩)
  all_goals exact .inr (.inr ⟨by simp, by simp, rfl⟩)

theorem silent_writes {e : Event sig} (hid : e.1 ≠ .newUuid) (hpermit : e.1 ≠ .acquireDecrypt) :
    Silent q.writes e := by
  intro labels
  rcases writes_cases q e with ⟨h, -⟩ | ⟨h, -⟩ | ⟨-, -, h⟩
  · exact absurd h hid
  · exact absurd h hpermit
  · rw [h]
    rfl

theorem silent_of_part {p : Part} (hrest : p ≠ .rest) (hdecrypt : p ≠ .decryption) {e : Event sig}
    (he : Of p e) : Silent q.writes e := by
  refine silent_writes (fun h => hrest ?_) fun h => hdecrypt ?_
  · unfold Of at he
    rw [← he, h]
    rfl
  · unfold Of at he
    rw [← he, h]
    rfl

theorem silent_part {y : Task α} {p : Part} (h : Always (Only (Of p)) y) (hrest : p ≠ .rest)
    (hdecrypt : p ≠ .decryption) : Always (Only (Silent q.writes)) y :=
  h.mono fun _ ho => ho.mono fun _ he => silent_of_part hrest hdecrypt he

theorem tracks_part {y : Attempt ε α} {p : Part} (h : Always (Only (Of p)) y.run)
    (hrest : p ≠ .rest) (hdecrypt : p ≠ .decryption) : Tracks q.writes (quiet y).run y.run :=
  tracks_quiet (silent_part h hrest hdecrypt)

theorem tracks_ofExcept (r : Except ε α) :
    Tracks q.writes (quiet (Attempt.ofExcept r)).run (Attempt.ofExcept r).run :=
  tracks_quiet (always_ofExcept (mixes_only _) r)

theorem tracks_attempt {o : Op} (hid : o ≠ .newUuid) (hpermit : o ≠ .acquireDecrypt) :
    Tracks q.writes (quiet (attempt o : Attempt ε o.Ans)).run (attempt o).run :=
  tracks_quiet (only_attempt fun _ => silent_writes hid hpermit)

theorem only_checkMetadata {Q : Event sig → Prop} (hlog : ∀ line x, Q ⟨.log line, x⟩)
    (ct : FheCiphertext) : Always (Only Q) (checkMetadata st handle api ct).run := by
  have hO := mixes_only Q
  unfold checkMetadata
  simp only
  split
  · exact always_throw hO _
  split
  · exact always_throw hO _
  split
  · exact hO.exceptBind (only_attempt (hlog _)) fun _ => always_throw hO _
  split
  · exact hO.exceptBind (only_attempt (hlog _)) fun _ => always_throw hO _
  · exact always_exceptPure hO _

theorem width_of_metadata (hq : Handle.parse q.ctTempkey = some handle) {ct : FheCiphertext}
    {ty : EncryptionType} (h : MetadataOk handle ct ty) : q.width = some ty := by
  rw [Ask.width, hq, Option.bind_some, EncryptionType.fromI32_eq_ok.2 h.2.2.1]
  rfl

theorem tracks_decryptServed (hq : Handle.parse q.ctTempkey = some handle) (ct : FheCiphertext) :
    Tracks q.writes (Labelled.decryptServed st handle api ct).run
      (decryptServed st handle api ct).run := by
  rw [decryptServed_eq]
  have hmeta : Always (Only (Silent q.writes)) (checkMetadata st handle api ct).run :=
    only_checkMetadata (fun _ _ => silent_writes (by simp) (by simp)) ct
  refine (tracks_quiet hmeta).exceptBind fun ty tr hty => ?_
  have hwidth := width_of_metadata hq (run_checkMetadata_ok.1 hty).2
  rw [← bind_assoc]
  refine Tracks.exceptBind (tracks_write_quiet fun tr r labels hrun => ?_) fun pt _ _ =>
    tracks_exceptPure _
  obtain ⟨⟨task, rfl⟩, -⟩ := run_decryptRow.1 hrun
  simp [Ask.writes, Ask.setWidth, hwidth]

theorem tracks_admitted (hq : Handle.parse q.ctTempkey = some handle) :
    Tracks q.writes (Labelled.admitted st handle hostChainId acp api).run
      (admitted st handle hostChainId acp api).run := by
  have hgates : Always (Only (Silent q.writes)) (gates st handle hostChainId acp api).run :=
    always_gates (mixes_only _) (silent_part only_acpGate (by decide) (by decide))
      (silent_part only_commitmentGate (by decide) (by decide))
  rw [admitted_eq]
  refine (tracks_quiet hgates).exceptBind fun expected _ _ => ?_
  rw [openRow_eq]
  exact (tracks_part only_fetchRow (by decide) (by decide)).exceptBind fun ct _ _ =>
    (tracks_ofExcept _).exceptBind fun _ _ _ =>
    (tracks_part (only_integrityGate _ _) (by decide) (by decide)).exceptBind fun _ _ _ =>
    tracks_decryptServed hq ct

theorem tracks_fetchDecrypt (hq : Handle.parse q.ctTempkey = some handle) :
    Tracks q.writes (Labelled.fetchDecrypt st handle hostChainId acp api).run
      (fetchDecrypt st handle hostChainId acp api).run := by
  rw [fetchDecrypt_eq]
  refine (tracks_attempt (by simp) (by simp)).exceptBind fun permit _ _ => ?_
  rcases permit with _ | _
  · exact tracks_quiet (always_throw (mixes_only _) _)
  · exact (tracks_admitted hq).lift.exceptBind fun out _ _ =>
      (tracks_attempt (by simp) (by simp)).exceptBind fun _ _ _ => tracks_ofExcept _

theorem tracks_respond {w : Event sig → DecryptLabels → DecryptLabels}
    {x : SinkT DecryptLabels sig Response Response} {y : Attempt Response Response}
    (h : Tracks w x.run y.run) : Tracks w (Labelled.respond x) (respond y) := by
  refine h.bind fun r _ _ => ?_
  rcases r with resp | resp
  · exact tracks_pure _
  · exact tracks_pure _

theorem parse_of_run {tr : Trace sig} {raw : String}
    (h : Run (parseHandle api raw).run tr (.ok handle)) : Handle.parse raw = some handle := by
  unfold parseHandle at h
  split at h
  next handle' hp =>
    obtain ⟨-, he⟩ := run_exceptPure.1 h
    cases he
    exact hp
  next => simp [run_pure] at h

/-- A request's start: its id, the labels known from its body, and its handle. -/
theorem tracks_start {k : String → Handle → SinkT DecryptLabels sig Response α}
    {k' : String → Handle → Attempt Response α}
    (hk : ∀ id handle, Handle.parse q.ctTempkey = some handle →
      Tracks q.writes (k id handle).run (k' id handle).run) :
    Tracks q.writes
      (quiet (attempt .newUuid) >>= fun id => write (·.setHostChainId q.hostChainId) >>= fun _ =>
        write (·.setAcpPresented q.acp.isSome) >>= fun _ =>
        quiet (parseHandle q.api q.ctTempkey) >>= k id).run
      (attempt .newUuid >>= fun id => parseHandle q.api q.ctTempkey >>= k' id).run := by
  have hwrites : ∀ x : String, q.writes ⟨.newUuid, x⟩
      = fun labels => (labels.setHostChainId q.hostChainId).setAcpPresented q.acp.isSome :=
    fun _ => rfl
  simp only [write_write]
  refine Tracks.call_write (S := sig) (o := Op.newUuid) hwrites fun id => ?_
  refine (tracks_quiet ?_).exceptBind fun handle tr h => hk id handle (parse_of_run h)
  unfold parseHandle
  split
  · exact always_exceptPure (mixes_only _) _
  · exact always_throw (mixes_only _) _

theorem quiet_pure_bind {σ ε α β : Type} (a : α) (k : α → SinkT σ sig ε β) :
    quiet (pure a) >>= k = k a := rfl

theorem tracks_asked {req : Request} (hq : req.ask = some q) :
    Tracks q.writes (Labelled.serve st req) (serve st req) := by
  have hsign : ∀ s, Tracks q.writes (quiet (resolveSignature q.api s)).run
      (resolveSignature q.api s).run := fun s =>
    tracks_quiet (only_resolveSignature (mixes_only _) _ s)
  have hacp : Tracks q.writes (quiet (requireAcp q.api q.acp)).run (requireAcp q.api q.acp).run := by
    refine tracks_quiet ?_
    unfold requireAcp
    split
    · exact always_exceptPure (mixes_only _) _
    · exact always_throw (mixes_only _) _
  have hkey : ∀ acp, Tracks q.writes (quiet (recipientKey q.api acp)).run
      (recipientKey q.api acp).run := fun acp =>
    tracks_quiet (only_recipientKey (mixes_only _) _ acp)
  have hseal : ∀ pk plaintext, Tracks q.writes (quiet (sealFor st.crates q.api pk plaintext)).run
      (sealFor st.crates q.api pk plaintext).run := fun pk plaintext =>
    tracks_quiet (only_sealFor (fun _ => silent_writes (by simp) (by simp))
      (fun _ => silent_writes (by simp) (by simp)) _ _ _ _)
  rcases req with ⟨headers, _ | req⟩ | ⟨headers, _ | req⟩ | ⟨headers, _ | req⟩
    | ⟨headers, _ | req⟩ | id | id
  all_goals simp only [Request.ask, Option.some.injEq, reduceCtorEq] at hq
  · subst hq
    refine tracks_respond ?_
    simp only [rejectBody, quiet_pure_bind, quiet_plain, write_plain, fetchDecrypt_plain, pure_bind]
    exact tracks_start fun id handle hp => (tracks_fetchDecrypt hp).exceptBind fun out _ _ =>
      (hsign _).exceptBind fun _ _ _ => tracks_exceptPure _
  · subst hq
    refine tracks_respond ?_
    simp only [rejectBody, quiet_pure_bind, quiet_plain, write_plain, fetchDecrypt_plain, pure_bind]
    exact tracks_start fun id handle hp => hacp.exceptBind fun acp _ _ =>
      (tracks_fetchDecrypt hp).exceptBind fun out _ _ => (hkey _).exceptBind fun _ _ _ =>
      (hseal _ _).exceptBind fun _ _ _ => (hsign _).exceptBind fun _ _ _ => tracks_exceptPure _
  · subst hq
    refine tracks_respond ?_
    simp only [rejectBody, quiet_pure_bind, quiet_plain, write_plain, fetchDecrypt_plain, pure_bind]
    exact tracks_start fun id handle hp =>
      (tracks_attempt (by simp) (by simp)).exceptBind fun now _ _ =>
      (tracks_fetchDecrypt hp).exceptBind fun out _ _ => (hsign _).exceptBind fun _ _ _ =>
      (tracks_attempt (by simp) (by simp)).exceptBind fun _ _ _ => tracks_exceptPure _
  · subst hq
    refine tracks_respond ?_
    simp only [rejectBody, quiet_pure_bind, quiet_plain, write_plain, fetchDecrypt_plain, pure_bind]
    exact tracks_start fun id handle hp =>
      (tracks_attempt (by simp) (by simp)).exceptBind fun now _ _ => hacp.exceptBind fun acp _ _ =>
      (tracks_fetchDecrypt hp).exceptBind fun out _ _ => (hkey _).exceptBind fun _ _ _ =>
      (hseal _ _).exceptBind fun _ _ _ => (hsign _).exceptBind fun _ _ _ =>
      (tracks_attempt (by simp) (by simp)).exceptBind fun _ _ _ => tracks_exceptPure _

/-- What a request writes; one that is not read writes nothing. -/
def writesOf : Option Ask → Event sig → DecryptLabels → DecryptLabels
  | some q => q.writes
  | none => fun _ => id

theorem tracks_quietly_none (y : Task α) : Tracks (writesOf none) (quietly y) y :=
  tracks_quietly fun _ _ _ _ _ _ => rfl

theorem tracks_rejected (api : ApiVersion) (rejection : JsonRejection)
    {k : α → SinkT DecryptLabels sig Response Response} {k' : α → Attempt Response Response} :
    Tracks (writesOf none) (Labelled.respond (quiet (rejectBody api (.error rejection)) >>= k))
      (respond (quiet (rejectBody api (.error rejection)) >>= k')) := by
  refine tracks_respond ((tracks_quietly_none _).exceptBind fun a tr h => ?_)
  cases (run_throw.1 h).2

theorem tracks_serve (st : AppState) (req : Request) :
    Tracks (writesOf req.ask) (Labelled.serve st req) (serve st req) := by
  rcases hq : req.ask with _ | q
  · rcases req with ⟨headers, rej | req⟩ | ⟨headers, rej | req⟩ | ⟨headers, rej | req⟩
      | ⟨headers, rej | req⟩ | id | id
    all_goals simp only [Request.ask, reduceCtorEq] at hq
    · exact tracks_rejected _ _
    · exact tracks_rejected _ _
    · exact tracks_rejected _ _
    · exact tracks_rejected _ _
    · exact tracks_quietly_none _
    · exact tracks_quietly_none _
  · exact tracks_asked hq

end Tracks

/-! ## The router with labels is the router -/

/-- What a handler is called with, if the route is one of the four. -/
def HttpRequest.submission (axum : Extractors) (req : HttpRequest) : Route → Option Request
  | .decrypt => some (.decrypt (axum.headers req) (axum.decryptJson req))
  | .sealoutput => some (.sealoutput (axum.headers req) (axum.sealOutputJson req))
  | .v2Decrypt => some (.v2Decrypt (axum.headers req) (axum.decryptJson req))
  | .v2Sealoutput => some (.v2Sealoutput (axum.headers req) (axum.sealOutputJson req))
  | _ => none

/-- What the request asks one of the four handlers, if one is called and can read its body. -/
def HttpRequest.asks (axum : Extractors) (req : HttpRequest) : Option Ask :=
  if req.method = .post then
    ((matchPath req.path).bind (req.submission axum)).bind Request.ask
  else none

section Router

variable {svc : Service} {chains : ChainLabels} {axum : Extractors} {req : HttpRequest}

theorem call_submission {m : Type → Type} [Monad m] [Sinks DecryptLabels sig m] (svc : Service)
    {route : Route} {r : Request} (h : req.submission axum route = some r) :
    (Labelled.call svc axum req route : m Reply)
      = Labelled.postRoute req (Labelled.serveApi svc r) := by
  cases route
  all_goals simp only [HttpRequest.submission, Option.some.injEq, reduceCtorEq] at h
  all_goals
    subst h
    rfl

theorem call_quietly {route : Route} (h : req.submission axum route = none) :
    (Labelled.call svc axum req route : StateT DecryptLabels (Prog sig) Reply)
      = quietly (Labelled.call svc axum req route) := by
  cases route
  all_goals simp only [HttpRequest.submission, reduceCtorEq] at h
  all_goals rfl

theorem tracks_call {route : Route} (hm : matchPath req.path = some route) :
    Tracks (writesOf (req.asks axum)) (Labelled.call svc axum req route)
      (Labelled.call svc axum req route) := by
  rcases hsub : req.submission axum route with _ | r
  · rw [call_quietly hsub]
    have hasks : req.asks axum = none := by simp [HttpRequest.asks, hm, hsub]
    rw [hasks]
    exact tracks_quietly_none _
  · rw [call_submission svc hsub, call_submission svc hsub]
    cases hmethod : req.method
    case post =>
      have hasks : req.asks axum = r.ask := by simp [HttpRequest.asks, hm, hsub, hmethod]
      rw [hasks]
      simp only [Labelled.postRoute, hmethod]
      exact (tracks_serve svc.st r).bind fun _ _ _ => tracks_pure _
    all_goals
      simp only [Labelled.postRoute, hmethod]
      exact tracks_pure _

theorem tracks_corsLayer {w : Event sig → DecryptLabels → DecryptLabels}
    {x : StateT DecryptLabels (Prog sig) Reply} {y : Task Reply} (h : Tracks w x y) :
    Tracks w (Labelled.corsLayer req x) (Labelled.corsLayer req y) := by
  unfold Labelled.corsLayer
  split_ifs with hopt
  · exact tracks_pure _
  · exact h

/-- A run of the router with labels is one of the router, and what is recorded is read off its
response and its events. -/
theorem run_labelledRouter {tr : Trace sig} {reply : Reply} {http : HttpRecord}
    {record : Option DecryptRecord} :
    Run (Labelled.router svc chains axum req) tr (reply, http, record) ↔
      (∃ sample, Run (router svc axum req) tr (reply, sample))
      ∧ http = observeHttp ((matchPath req.path).map Route.template) req.method reply.status
      ∧ record = (((matchPath req.path).map Route.template).filter (decryptRoutes.contains ·)).map
          fun route => observeDecrypt chains route (written (writesOf (req.asks axum)) tr .default)
            reply.outcome reply.status := by
  obtain ⟨x, y, hx, hy, hinner⟩ : ∃ x y,
      Labelled.router svc chains axum req
        = Labelled.trackMetrics chains req ((matchPath req.path).map Route.template) x
      ∧ router svc axum req = trackMetrics ((matchPath req.path).map Route.template) y
      ∧ Tracks (writesOf (req.asks axum)) x y := by
    refine ⟨_, _, rfl, rfl, tracks_corsLayer ?_⟩
    rcases hm : matchPath req.path with _ | route
    · exact tracks_pure _
    · exact tracks_call hm
  rw [hx, Labelled.trackMetrics, bind_eq, run_bind]
  constructor
  · rintro ⟨tr₁, tr₂, ⟨reply', labels⟩, rfl, h₁, h₂⟩
    obtain ⟨rfl, hr⟩ := run_pure.1 h₂
    cases hr
    obtain ⟨hrun, rfl⟩ := (hinner _ _ _ _).1 h₁
    rw [List.append_nil]
    refine ⟨⟨(((matchPath req.path).map Route.template).filter (decryptRoutes.contains ·)).map
      fun route => ⟨route, outcomeLabel reply.outcome reply.status⟩, ?_⟩, rfl, rfl⟩
    rw [hy, trackMetrics, bind_eq, run_bind]
    exact ⟨tr₁, [], reply, by simp, hrun, run_pure.2 ⟨rfl, rfl⟩⟩
  · rintro ⟨⟨sample, h⟩, rfl, rfl⟩
    rw [hy] at h
    obtain ⟨hrun, -⟩ := run_trackMetrics h
    exact ⟨tr, [], (reply, _), by simp, (hinner _ _ _ _).2 ⟨hrun, rfl⟩, run_pure.2 ⟨rfl, rfl⟩⟩

end Router

/-! ## What the labels are -/

section Written

variable {q : Ask} {st : AppState} {req : Request} {tr : Trace sig} {resp : Response}

/-- A label that is written stays. -/
theorem writes_keeps (q : Ask) (e : Event sig) (labels : DecryptLabels) :
    (∀ chainId, labels.hostChainId = some chainId → (q.writes e labels).hostChainId = some chainId)
      ∧ (∀ acp, labels.acpPresented = some acp → (q.writes e labels).acpPresented = some acp)
      ∧ ∀ ty, labels.encryptionType = some ty → (q.writes e labels).encryptionType = some ty := by
  rcases writes_cases q e with ⟨-, h⟩ | ⟨-, h⟩ | ⟨-, -, h⟩
  · rw [h]
    simp +contextual [DecryptLabels.setHostChainId, DecryptLabels.setAcpPresented]
  · rw [h, Ask.setWidth]
    split
    · simp +contextual [DecryptLabels.setEncryptionType]
    · exact ⟨fun _ h => h, fun _ h => h, fun _ h => h⟩
  · rw [h]
    exact ⟨fun _ h => h, fun _ h => h, fun _ h => h⟩

theorem written_keeps (q : Ask) (tr : Trace sig) (labels : DecryptLabels) :
    (∀ chainId, labels.hostChainId = some chainId →
        (written q.writes tr labels).hostChainId = some chainId)
      ∧ (∀ acp, labels.acpPresented = some acp → (written q.writes tr labels).acpPresented = some acp)
      ∧ ∀ ty, labels.encryptionType = some ty →
        (written q.writes tr labels).encryptionType = some ty := by
  induction tr generalizing labels with
  | nil => exact ⟨fun _ h => h, fun _ h => h, fun _ h => h⟩
  | cons e tr ih =>
    obtain ⟨hchain, hacp, htype⟩ := writes_keeps q e labels
    obtain ⟨ihchain, ihacp, ihtype⟩ := ih (q.writes e labels)
    exact ⟨fun _ h => ihchain _ (hchain _ h), fun _ h => ihacp _ (hacp _ h),
      fun _ h => ihtype _ (htype _ h)⟩

theorem writes_type (q : Ask) {e : Event sig} (h : e.1 ≠ .acquireDecrypt) (labels : DecryptLabels) :
    (q.writes e labels).encryptionType = labels.encryptionType := by
  rcases writes_cases q e with ⟨-, hw⟩ | ⟨he, -⟩ | ⟨-, -, hw⟩
  · rw [hw]
    rfl
  · exact absurd he h
  · rw [hw]
    rfl

/-- The type is known once a CPU permit is taken. -/
theorem written_type {ty : EncryptionType} (hwidth : q.width = some ty) {labels : DecryptLabels}
    (hmem : ⟨.acquireDecrypt, ()⟩ ∈ tr) (hnone : labels.encryptionType = none) :
    (written q.writes tr labels).encryptionType = some ty := by
  induction tr generalizing labels with
  | nil => cases hmem
  | cons e tr ih =>
    by_cases he : e.1 = .acquireDecrypt
    · have hset : (q.writes e labels).encryptionType = some ty := by
        rcases writes_cases q e with ⟨hid, -⟩ | ⟨-, hw⟩ | ⟨-, hne, -⟩
        · rw [he] at hid
          cases hid
        · simp [hw, Ask.setWidth, hwidth, hnone, DecryptLabels.setEncryptionType]
        · exact absurd he hne
      exact (written_keeps q tr _).2.2 ty hset
    · have hmem' : ⟨.acquireDecrypt, ()⟩ ∈ tr := by
        rcases List.mem_cons.1 hmem with rfl | hmem
        · exact absurd rfl he
        · exact hmem
      exact ih hmem' ((writes_type q he labels).trans hnone)

theorem written_no_type (q : Ask) {tr : Trace sig} (h : ∀ e ∈ tr, e.1 ≠ .acquireDecrypt)
    (labels : DecryptLabels) :
    (written q.writes tr labels).encryptionType = labels.encryptionType := by
  induction tr generalizing labels with
  | nil => rfl
  | cons e tr ih =>
    rw [written_cons, ih (fun e' he' => h e' (List.mem_cons_of_mem _ he')),
      writes_type q (h e List.mem_cons_self)]

theorem serve_newUuid (hq : req.ask = some q) (h : Run (serve st req) tr resp) :
    ∃ id tr', tr = ⟨.newUuid, id⟩ :: tr' := by
  have henter : ∀ {tr : Trace sig} {r : Except Response Entered}, Run q.enter.run tr r →
      ∃ id tr', tr = ⟨.newUuid, id⟩ :: tr' := by
    intro tr r h
    obtain ⟨id, tr', rfl, -⟩ := run_attemptBind.1 h
    exact ⟨id, tr', rfl⟩
  rcases (run_serve hq).1 h with h | ⟨trE, tr', e, rfl, hE, -⟩
  · exact henter h
  · obtain ⟨id, trE', rfl⟩ := henter hE
    exact ⟨id, trE' ++ tr', rfl⟩

/-- A CPU permit is taken for a row whose type is the handle's. -/
theorem fetchDecrypt_permit {handle : Handle} {hostChainId : UInt64} {acp : Option AcpData}
    {api : ApiVersion} {r : Except Response (U256 × EncryptionType)}
    (h : Run (fetchDecrypt st handle hostChainId acp api).run tr r)
    (hpermit : ⟨.acquireDecrypt, ()⟩ ∈ tr) : ∃ ct ty, MetadataOk handle ct ty := by
  have hnone : ∀ {tr : Trace sig}, Only (fun e => ¬ Of .decryption e) tr →
      ⟨.acquireDecrypt, ()⟩ ∉ tr := fun ho hm => ho _ hm rfl
  have hpart : ∀ {p : Part} {tr : Trace sig}, p ≠ .decryption → Only (Of p) tr →
      ⟨.acquireDecrypt, ()⟩ ∉ tr := fun hp ho => hnone (ho.mono fun _ he => he.ne hp)
  rcases run_fetchDecrypt.1 h with ⟨rfl, -⟩ | ⟨tr', rfl, h'⟩
  · simp at hpermit
  have hpermit : ⟨.acquireDecrypt, ()⟩ ∈ tr' := by simpa using hpermit
  have hgates : Always (Only fun e => ¬ Of .decryption e) (gates st handle hostChainId acp api).run :=
    always_gates (mixes_only _) (always_not_of only_acpGate (by decide))
      (always_not_of only_commitmentGate (by decide))
  rcases run_exceptBind.1 h' with ⟨resp, rfl, hG⟩ | ⟨trG, trO, expected, rfl, hG, hO⟩
  · exact absurd hpermit (hnone (hgates.run hG))
  have hpermit := (List.mem_append.1 hpermit).resolve_left (hnone (hgates.run hG))
  obtain ⟨reply, trR, rfl, ⟨resp, -, rfl, -⟩ | ⟨ct, -, hR⟩⟩ := run_openRow.1 hO
  · simp at hpermit
  have hpermit : ⟨.acquireDecrypt, ()⟩ ∈ trR := by simpa using hpermit
  have hcheck : Always (Only (Of .commitment))
      (integrityGate st handle hostChainId api expected ct.data).run := only_integrityGate _ _
  rcases run_exceptBind.1 hR with ⟨resp, rfl, hI⟩ | ⟨trI, trD, ⟨⟩, rfl, hI, hD⟩
  · exact absurd hpermit (hpart (by decide) (hcheck.run hI))
  have hpermit := (List.mem_append.1 hpermit).resolve_left (hpart (by decide) (hcheck.run hI))
  rcases run_exceptBind.1 hD with ⟨resp, rfl, hM⟩ | ⟨trM, trC, ty, rfl, hM, -⟩
  · have hmeta : Always (Only fun e : Event sig => e.1 ≠ .acquireDecrypt)
        (checkMetadata st handle api ct).run := only_checkMetadata (fun _ _ => by simp) ct
    exact absurd rfl (hmeta.run hM _ hpermit)
  · exact ⟨ct, ty, (run_checkMetadata_ok.1 hM).2⟩

theorem serve_permit (hq : req.ask = some q) (h : Run (serve st req) tr resp)
    (hpermit : ⟨.acquireDecrypt, ()⟩ ∈ tr) :
    ∃ (handle : Handle) (ty : EncryptionType), Handle.parse q.ctTempkey = some handle
      ∧ ((handleType (toBeBytes handle.u256)).toNat : ℤ) = ty.toI32 := by
  have hrest : ∀ {tr : Trace sig}, Only (Of .rest) tr → ⟨.acquireDecrypt, ()⟩ ∉ tr :=
    fun ho hm => (ho _ hm).ne (by decide : Part.rest ≠ .decryption) rfl
  rcases (run_serve hq).1 h with hE | ⟨trE, tr', e, rfl, hE, h'⟩
  · exact absurd hpermit (hrest (rest_enter.run hE))
  have hpermit := (List.mem_append.1 hpermit).resolve_left (hrest (rest_enter.run hE))
  have hfetch : ∃ ct ty, MetadataOk e.handle ct ty := by
    rcases h' with hF | ⟨trF, trZ, out, rfl, hF, hZ⟩
    · exact fetchDecrypt_permit hF hpermit
    · have hZ : ⟨.acquireDecrypt, ()⟩ ∉ trZ := by
        rcases hZ with hZ | hZ
        · exact hrest ((rest_finish _ _ _ _).run hZ)
        · exact hrest ((rest_finish _ _ _ _).run hZ)
      exact fetchDecrypt_permit hF ((List.mem_append.1 hpermit).resolve_right hZ)
  obtain ⟨ct, ty, hm⟩ := hfetch
  exact ⟨e.handle, ty, (enter_ok hE).1, hm.2.2.1⟩

/-- A request that returns has started a closure if it took a CPU permit. -/
theorem serve_spawned (h : Run (serve st req) tr resp) :
    (⟨.acquireDecrypt, ()⟩ : Event sig) ∈ tr ↔ ∃ task, ⟨.spawnBlocking, task⟩ ∈ tr := by
  have hcount := (repaysPermit_serve req).whole h
  have hmem : ∀ o : Op, 0 < tr.countP (Shared.isOp o) ↔ ∃ x, (⟨o, x⟩ : Event sig) ∈ tr := by
    intro o
    simp only [List.countP_pos_iff, Shared.isOp, decide_eq_true_eq]
    constructor
    · rintro ⟨⟨o', x⟩, hm, rfl⟩
      exact ⟨x, hm⟩
    · rintro ⟨x, hm⟩
      exact ⟨_, hm, rfl⟩
  rw [← hmem .spawnBlocking, ← hcount, hmem]
  constructor
  · exact fun hm => ⟨(), hm⟩
  · rintro ⟨⟨⟩, hm⟩
    exact hm

/-- The labels of a request that returned. -/
theorem written_serve (hq : req.ask = some q) (h : Run (serve st req) tr resp) :
    (written q.writes tr .default).hostChainId = some q.hostChainId
      ∧ (written q.writes tr .default).acpPresented = some q.acp.isSome
      ∧ ((∀ task, ⟨.spawnBlocking, task⟩ ∉ tr)
          ∧ (written q.writes tr .default).encryptionType = none
        ∨ (∃ task, ⟨.spawnBlocking, task⟩ ∈ tr) ∧ ∃ (handle : Handle) (ty : EncryptionType),
          Handle.parse q.ctTempkey = some handle
          ∧ ((handleType (toBeBytes handle.u256)).toNat : ℤ) = ty.toI32
          ∧ (written q.writes tr .default).encryptionType = some ty) := by
  refine ⟨?_, ?_, ?_⟩
  · obtain ⟨id, tr', rfl⟩ := serve_newUuid hq h
    exact (written_keeps q tr' _).1 _ rfl
  · obtain ⟨id, tr', rfl⟩ := serve_newUuid hq h
    exact (written_keeps q tr' _).2.1 _ rfl
  · by_cases hpermit : (⟨.acquireDecrypt, ()⟩ : Event sig) ∈ tr
    · obtain ⟨handle, ty, hp, hty⟩ := serve_permit hq h hpermit
      have hwidth : q.width = some ty := by
        rw [Ask.width, hp, Option.bind_some, EncryptionType.fromI32_eq_ok.2 hty]
        rfl
      exact .inr ⟨(serve_spawned h).1 hpermit, handle, ty, hp, hty, written_type hwidth hpermit rfl⟩
    · refine .inl ⟨fun task hm => hpermit ((serve_spawned h).2 ⟨task, hm⟩), ?_⟩
      refine written_no_type q (fun e he hop => hpermit ?_) _
      obtain ⟨o, x⟩ := e
      obtain rfl : o = .acquireDecrypt := hop
      exact he

end Written

/-- The sample of `router`. -/
def DecryptRecord.sample (r : DecryptRecord) : DecryptSample := ⟨r.route, r.outcome⟩

/-- What a record says of a request, in a deployment that serves the chains `served`: the chain the
request asks for, if it is served; whether it brought an ACP; and the type of its handle, with a
duration, if it started a closure. Of a request that no handler reads it says nothing. -/
def DecryptRecord.Says (served : List UInt64) (tr : Trace sig) (r : DecryptRecord) :
    Option Ask → Prop
  | none => r.hostChainId = "unknown" ∧ r.acp = "unknown" ∧ r.encryptionType = "unknown"
      ∧ r.duration = none
  | some q => r.hostChainId
        = (if q.hostChainId ∈ served then toString q.hostChainId.toNat else "other")
      ∧ r.acp = (if q.acp.isSome then "present" else "absent")
      ∧ ((∀ task, ⟨.spawnBlocking, task⟩ ∉ tr) ∧ r.encryptionType = "unknown" ∧ r.duration = none
        ∨ (∃ task, ⟨.spawnBlocking, task⟩ ∈ tr) ∧ ∃ (handle : Handle) (ty : EncryptionType),
          Handle.parse q.ctTempkey = some handle
          ∧ ((handleType (toBeBytes handle.u256)).toNat : ℤ) = ty.toI32
          ∧ r.encryptionType = ty.asStr ∧ r.duration = some (r.route, ty.asStr))

theorem label_new (served : List UInt64) (chainId : UInt64) :
    (ChainLabels.new served).label (some chainId)
      = if chainId ∈ served then toString chainId.toNat else "other" := by
  induction served with
  | nil => rfl
  | cons id served ih =>
    by_cases h : id = chainId
    · simp [ChainLabels.new, ChainLabels.label, h]
    · have hne : ¬ chainId = id := fun hc => h hc.symm
      simp only [ChainLabels.new, ChainLabels.label, List.map_cons, List.find?_cons, h, decide_false,
        List.mem_cons, hne, false_or] at ih ⊢
      exact ih

theorem observeDecrypt_says (served : List UInt64) {q : Ask} {tr : Trace sig} {r : Request}
    {st : AppState} {resp : Response} (hq : r.ask = some q) (h : Run (serve st r) tr resp)
    (route : String) (outcome : Option String) (status : ℕ) :
    (observeDecrypt (.new served) route (written q.writes tr .default) outcome status).Says served tr
      (some q) := by
  obtain ⟨hchain, hacp, htype⟩ := written_serve hq h
  refine ⟨?_, ?_, ?_⟩
  · simp only [observeDecrypt, hchain, label_new]
  · simp only [observeDecrypt, hacp, acpLabel]
    cases q.acp.isSome <;> rfl
  · rcases htype with ⟨hnone, hty⟩ | ⟨hsome, handle, ty, hp, hh, hty⟩
    · exact .inl ⟨hnone, by simp [observeDecrypt, hty], by simp [observeDecrypt, hty]⟩
    · exact .inr ⟨hsome, handle, ty, hp, hh, by simp [observeDecrypt, hty],
        by simp [observeDecrypt, hty]⟩

/-- The run of a handler in the router's. -/
theorem run_router_asked {svc : Service} {axum : Extractors} {req : HttpRequest} {q : Ask}
    (hasks : req.asks axum = some q) {tr : Trace sig} {reply : Reply} {sample : Option DecryptSample}
    (h : Run (router svc axum req) tr (reply, sample)) :
    ∃ r resp, r.ask = some q ∧ Run (serve svc.st r) tr resp := by
  unfold HttpRequest.asks at hasks
  split_ifs at hasks with hpost
  obtain ⟨r, hr, hask⟩ := Option.bind_eq_some_iff.1 hasks
  obtain ⟨route, hm, hsub⟩ := Option.bind_eq_some_iff.1 hr
  obtain ⟨hrun, -⟩ := run_trackMetrics h
  simp only [Labelled.routed, Labelled.corsLayer, hpost, hm, call_submission svc hsub,
    Labelled.postRoute] at hrun
  obtain ⟨resp, -, hserve⟩ := run_serveApi hrun
  exact ⟨r, resp, hask, hserve⟩

/-- Recording changes nothing, and says what happened. For every HTTP request and in every world,
the router with its labels gives the responses the router without them gives, by the same events;
every response is recorded under its method, route template and status; and what is recorded on a
decrypt route is true of the request. -/
theorem labels_truthful (svc : Service) (served : List UInt64) (axum : Extractors)
    (req : HttpRequest) :
    (∀ tr reply sample, Run (router svc axum req) tr (reply, sample) →
      ∃ http record, Run (Labelled.router svc (.new served) axum req) tr (reply, http, record))
    ∧ ∀ tr reply http record,
      Run (Labelled.router svc (.new served) axum req) tr (reply, http, record) →
        Run (router svc axum req) tr (reply, record.map DecryptRecord.sample)
        ∧ http = ⟨methodLabel req.method, ((matchPath req.path).map Route.template).getD "unmatched",
          reply.status⟩
        ∧ ∀ r, record = some r → r.Says served tr (req.asks axum) := by
  refine ⟨fun tr reply sample h => ⟨_, _, run_labelledRouter.2 ⟨⟨sample, h⟩, rfl, rfl⟩⟩, ?_⟩
  intro tr reply http record h
  obtain ⟨⟨sample, hrun⟩, rfl, rfl⟩ := run_labelledRouter.1 h
  refine ⟨?_, rfl, fun r hr => ?_⟩
  · obtain ⟨-, rfl⟩ := run_trackMetrics hrun
    rw [Option.map_map]
    exact hrun
  · obtain ⟨route, -, rfl⟩ := Option.map_eq_some_iff.1 hr
    rcases hasks : req.asks axum with _ | q
    · have hnone : written (writesOf none) tr DecryptLabels.default = .default :=
        written_of_silent (fun _ _ _ => rfl) _
      rw [hnone]
      exact ⟨rfl, rfl, rfl, rfl⟩
    · obtain ⟨r, resp, hask, hserve⟩ := run_router_asked hasks hrun
      exact observeDecrypt_says served hask hserve _ _ _

theorem sample_router : Run (router sampleService sampleExtractors ⟨.post, "/decrypt", [], []⟩)
    (⟨.newUuid, "id"⟩ :: sampleFetch) (.api sampleResponse, some ⟨"/decrypt", "ok"⟩) := by
  have hserve : Run (serveApi sampleService (sampleRequest 1)) (⟨.newUuid, "id"⟩ :: sampleFetch)
      (.api sampleResponse) := by
    rw [serveApi, Labelled.serveApi, serve_plain, bind_eq, run_bind]
    exact ⟨_, [], sampleResponse, by simp, sample_serve false, run_pure.2 ⟨rfl, rfl⟩⟩
  rw [router, trackMetrics, bind_eq, run_bind]
  exact ⟨_, [], .api sampleResponse, by simp, hserve, run_pure.2 ⟨rfl, rfl⟩⟩

/-- A decrypt of a public boolean is recorded with its chain, no ACP, its type and its duration. -/
theorem labels_truthful_sample : ∃ http r,
    Run (Labelled.router sampleService (.new [1]) sampleExtractors ⟨.post, "/decrypt", [], []⟩)
      (⟨.newUuid, "id"⟩ :: sampleFetch) (.api sampleResponse, http, some r)
    ∧ http = ⟨"POST", "/decrypt", 200⟩ ∧ r.hostChainId = "1" ∧ r.acp = "absent"
    ∧ r.encryptionType = "bool" ∧ r.duration = some (r.route, "bool") := by
  obtain ⟨htotal, hsound⟩ :=
    labels_truthful sampleService [1] sampleExtractors ⟨.post, "/decrypt", [], []⟩
  obtain ⟨http, record, h⟩ := htotal _ _ _ sample_router
  obtain ⟨-, -, hrecord⟩ := run_labelledRouter.1 h
  obtain ⟨r, rfl⟩ : ∃ r, record = some r := ⟨_, hrecord⟩
  obtain ⟨-, hhttp, hsays⟩ := hsound _ _ _ _ h
  obtain ⟨hchain, hacp, hnone | ⟨-, handle, ty, hp, hty, hwidth, hduration⟩⟩ := hsays r rfl
  · exact absurd (by simp [sampleFetch]) (hnone.1 0)
  · obtain rfl : handle = sampleHandle := Option.some.inj (hp.symm.trans sample_parse)
    obtain rfl : ty = .bool := EncryptionType.toI32_inj (hty.symm.trans sample_metadata.2.2.1)
    exact ⟨http, r, h, hhttp, hchain, hacp, hwidth, hduration⟩

end Teecryptor
