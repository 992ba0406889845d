import Teecryptor.Proofs.Encoding

/-!
# The two API versions answer alike

`/decrypt` and `/v2/decrypt`, and `/sealoutput` and `/v2/sealoutput`, run the same program around
the same request: v2 also takes the time, keeps the answer for its poll route, and encodes
failures its own way. So in one world the two answer with the same result or fail on the same
condition.
-/

namespace Teecryptor

open Interact Interact.Prog Rust

/-- The answer as v1 sends it. -/
def v1Body (a : Answer) : Body :=
  match a.result with
  | .decrypted bytes => .decrypt ⟨bytes, a.signature, a.encryptionType, none⟩
  | .sealed out => .sealOutput
      ⟨some ⟨out.data, out.publicKey, out.nonce⟩, a.signature, a.encryptionType, none⟩

/-- The answer as v2 sends it, under the request's id. -/
def v2Body (requestId : String) (a : Answer) : Body :=
  match a.result with
  | .decrypted bytes =>
    .v2DecryptSubmit ⟨requestId, some bytes, some a.signature, some a.encryptionType⟩
  | .sealed out => .v2SealOutputSubmit ⟨requestId, some out.data, some out.publicKey,
      some out.nonce, some a.signature, some a.encryptionType⟩

/-- The entry of an answer in its v2 cache. -/
def v2Put (requestId now : String) (a : Answer) : Op :=
  match a.result with
  | .decrypted bytes =>
    .v2CachePut requestId ⟨bytes, a.signature, a.encryptionType, now, now⟩
  | .sealed out => .v2SealCachePut requestId
      ⟨out.data, out.publicKey, out.nonce, a.signature, a.encryptionType, now, now⟩

@[simp] theorem answer_v1Body (a : Answer) : (v1Body a).answer = some a := by
  obtain ⟨_ | _, _, _⟩ := a <;> rfl

@[simp] theorem answer_v2Body (id : String) (a : Answer) : (v2Body id a).answer = some a := by
  obtain ⟨_ | _, _, _⟩ := a <;> rfl

/-- The v2 request with the headers and body of a v1 one. -/
def Request.counterpart : Request → Option Request
  | .decrypt headers body => some (.v2Decrypt headers body)
  | .sealoutput headers body => some (.v2Sealoutput headers body)
  | _ => none

section

variable {st : AppState} {req req' : Request} {q : Ask}

theorem serve_v1 (hc : req.counterpart = some req') (hq : req.ask = some q) :
    serve st req = respond (do
      let _ ← attempt .newUuid
      let handle ← parseHandle .v1 q.ctTempkey
      let a ← requested q .v1 st handle
      return .okJson (v1Body a)) := by
  rcases req with ⟨headers, _ | req⟩ | ⟨headers, _ | req⟩ | ⟨headers, _ | req⟩
    | ⟨headers, _ | req⟩ | id | id
  all_goals simp only [Request.counterpart, Request.ask, Option.some.injEq, reduceCtorEq] at hc hq
  · subst hq
    rw [serve_eq st rfl]
    simp only [Ask.enter, Ask.clock, Ask.recipient, Ask.finish, Ask.answerDecrypt, requested,
      settle, v1Body, bind_assoc, pure_bind]
  · subst hq
    rw [serve_eq st rfl]
    rcases hacp : req.acp with _ | acp
    · simp only [Ask.enter, Ask.clock, Ask.recipient, requireAcp, requested, throw_bind, bind_assoc,
        pure_bind]
    · simp only [Ask.enter, Ask.clock, Ask.recipient, requireAcp, Ask.finish, Ask.answerSeal,
        requested, settle, v1Body, bind_assoc, pure_bind]

theorem serve_v2 (hc : req.counterpart = some req') (hq : req.ask = some q) :
    serve st req' = respond (do
      let requestId ← attempt .newUuid
      let handle ← parseHandle .v2 q.ctTempkey
      let now ← attempt .utcNow
      let a ← requested q .v2 st handle
      let _ ← attempt (v2Put requestId now a)
      return .okJson (v2Body requestId a)) := by
  rcases req with ⟨headers, _ | req⟩ | ⟨headers, _ | req⟩ | ⟨headers, _ | req⟩
    | ⟨headers, _ | req⟩ | id | id
  all_goals simp only [Request.counterpart, Request.ask, Option.some.injEq, reduceCtorEq] at hc hq
  · subst hc hq
    rw [serve_eq st rfl]
    simp only [Ask.enter, Ask.clock, Ask.recipient, Ask.finish, Ask.answerDecrypt, requested,
      settle, v2Put, v2Body, bind_assoc, pure_bind]
  · subst hc hq
    rw [serve_eq st rfl]
    rcases hacp : req.acp with _ | acp
    · simp only [Ask.enter, Ask.clock, Ask.recipient, requireAcp, requested, throw_bind, bind_assoc]
    · simp only [Ask.enter, Ask.clock, Ask.recipient, requireAcp, Ask.finish, Ask.answerSeal,
        requested, settle, v2Put, v2Body, bind_assoc, pure_bind]

theorem run_v1 (hc : req.counterpart = some req') (hq : req.ask = some q) {handle : Handle}
    (hp : Handle.parse q.ctTempkey = some handle) {tr : Trace sig} {r : Response} :
    Run (serve st req) tr r ↔ ∃ id tr₁, tr = ⟨.newUuid, id⟩ :: tr₁
      ∧ ((∃ a, Run (requested q .v1 st handle).run tr₁ (.ok a) ∧ r = .okJson (v1Body a))
        ∨ Run (requested q .v1 st handle).run tr₁ (.error r)) := by
  rw [serve_v1 hc hq, run_respond]
  simp only [parseHandle, hp, pure_bind]
  constructor
  · rintro (h | h)
    · obtain ⟨id, tr₁, rfl, h₁⟩ := run_attemptBind.1 h
      rcases run_exceptBind.1 h₁ with ⟨_, he, -⟩ | ⟨tr₂, tr₃, a, rfl, h₂, h₃⟩
      · cases he
      obtain ⟨rfl, hr⟩ := run_exceptPure.1 h₃
      cases hr
      exact ⟨id, _, rfl, .inl ⟨a, by simpa using h₂, rfl⟩⟩
    · obtain ⟨id, tr₁, rfl, h₁⟩ := run_attemptBind.1 h
      rcases run_exceptBind.1 h₁ with ⟨_, he, h₂⟩ | ⟨tr₂, tr₃, a, rfl, h₂, h₃⟩
      · cases he
        exact ⟨id, tr₁, rfl, .inr h₂⟩
      · obtain ⟨-, hr⟩ := run_exceptPure.1 h₃
        cases hr
  · rintro ⟨id, tr₁, rfl, ⟨a, h, rfl⟩ | h⟩
    · exact .inl (run_attemptBind.2 ⟨id, tr₁, rfl, run_exceptBind.2 (.inr ⟨tr₁, [], a, by simp, h,
        run_exceptPure.2 ⟨rfl, rfl⟩⟩)⟩)
    · exact .inr (run_attemptBind.2 ⟨id, tr₁, rfl, run_exceptBind.2 (.inl ⟨r, rfl, h⟩)⟩)

theorem run_v2 (hc : req.counterpart = some req') (hq : req.ask = some q) {handle : Handle}
    (hp : Handle.parse q.ctTempkey = some handle) {tr : Trace sig} {r : Response} :
    Run (serve st req') tr r ↔ ∃ id now tr₁, tr = ⟨.newUuid, id⟩ :: ⟨.utcNow, now⟩ :: tr₁
      ∧ ((∃ a x tr₂, tr₁ = tr₂ ++ [⟨v2Put id now a, x⟩]
          ∧ Run (requested q .v2 st handle).run tr₂ (.ok a) ∧ r = .okJson (v2Body id a))
        ∨ Run (requested q .v2 st handle).run tr₁ (.error r)) := by
  rw [serve_v2 hc hq, run_respond]
  simp only [parseHandle, hp, pure_bind]
  constructor
  · rintro (h | h)
    · obtain ⟨id, tr₁, rfl, h₁⟩ := run_attemptBind.1 h
      obtain ⟨now, tr₂, rfl, h₂⟩ := run_attemptBind.1 h₁
      rcases run_exceptBind.1 h₂ with ⟨_, he, -⟩ | ⟨tr₃, tr₄, a, rfl, h₃, h₄⟩
      · cases he
      obtain ⟨x, tr₅, rfl, h₅⟩ := run_attemptBind.1 h₄
      obtain ⟨rfl, hr⟩ := run_exceptPure.1 h₅
      cases hr
      exact ⟨id, now, _, rfl, .inl ⟨a, x, tr₃, rfl, h₃, rfl⟩⟩
    · obtain ⟨id, tr₁, rfl, h₁⟩ := run_attemptBind.1 h
      obtain ⟨now, tr₂, rfl, h₂⟩ := run_attemptBind.1 h₁
      rcases run_exceptBind.1 h₂ with ⟨_, he, h₃⟩ | ⟨tr₃, tr₄, a, rfl, h₃, h₄⟩
      · cases he
        exact ⟨id, now, tr₂, rfl, .inr h₃⟩
      · obtain ⟨x, tr₅, rfl, h₅⟩ := run_attemptBind.1 h₄
        obtain ⟨-, hr⟩ := run_exceptPure.1 h₅
        cases hr
  · rintro ⟨id, now, tr₁, rfl, ⟨a, x, tr₂, rfl, h, rfl⟩ | h⟩
    · refine .inl (run_attemptBind.2 ⟨id, _, rfl, run_attemptBind.2 ⟨now, _, rfl,
        run_exceptBind.2 (.inr ⟨tr₂, _, a, rfl, h, ?_⟩)⟩⟩)
      exact run_attemptBind.2 ⟨x, [], rfl, run_exceptPure.2 ⟨rfl, rfl⟩⟩
    · exact .inr (run_attemptBind.2 ⟨id, _, rfl, run_attemptBind.2 ⟨now, _, rfl,
        run_exceptBind.2 (.inl ⟨r, rfl, h⟩)⟩⟩)

/-! ## One outcome behind both versions -/

/-- The two traces are answered alike in every world. -/
def Worldly (tr tr' : Trace sig) : Prop :=
  ∀ w : World sig, w.Gives Op.service [] tr ↔ w.Gives Op.service [] tr'

def v1Response : Except Failure Answer → Response
  | .ok a => .okJson (v1Body a)
  | .error f => f.response .v1

def v2Response (requestId : String) : Except Failure Answer → Response
  | .ok a => .okJson (v2Body requestId a)
  | .error f => f.response .v2

/-- The responses `p` gives are the outcomes of `y`, in the worlds `y` comes to them in. -/
structure Answers (p : Task Response) (y : Attempt Failure Answer)
    (response : Except Failure Answer → Response → Prop) : Prop where
  outcome : ∀ tr r, Run p tr r → ∃ tr₁ o, Run y.run tr₁ o ∧ Worldly tr tr₁ ∧ response o r
  run : ∀ tr₁ o, Run y.run tr₁ o → ∃ tr r, Run p tr r ∧ Worldly tr tr₁

def IsV1 (o : Except Failure Answer) (r : Response) : Prop := r = v1Response o

def IsV2 (o : Except Failure Answer) (r : Response) : Prop := ∃ id, r = v2Response id o

theorem worldly_cons {e : Event sig} (he : e.1.service = none) (tr : Trace sig) :
    Worldly (e :: tr) tr := fun _ => World.gives_cons he

theorem Worldly.trans {tr tr' tr'' : Trace sig} (h : Worldly tr tr') (h' : Worldly tr' tr'') :
    Worldly tr tr'' := fun w => (h w).trans (h' w)

theorem service_v2Put (id now : String) (a : Answer) : (v2Put id now a).service = none := by
  obtain ⟨_ | _, _, _⟩ := a <;> rfl

theorem worldly_put (id now : String) (a : Answer) (x : (v2Put id now a).Ans) (tr : Trace sig) :
    Worldly (tr ++ [⟨v2Put id now a, x⟩]) tr := by
  intro w
  rw [World.gives_append, World.gives_cons (service_v2Put id now a)]
  exact ⟨fun h => h.1, fun h => ⟨h, trivial⟩⟩

/-- A request that is refused before anything is asked for. -/
theorem answers_refused {p : Task Response} {tr : Trace sig} {f : Failure}
    {response : Except Failure Answer → Response → Prop} {r : Response} (hp : Run p tr r)
    (htr : Worldly tr []) (hr : ∀ tr' r', Run p tr' r' → r' = r ∧ Worldly tr' [])
    (hresp : response (.error f) r) : Answers p (throw f) response where
  outcome := by
    intro tr' r' h
    obtain ⟨rfl, ht⟩ := hr tr' r' h
    exact ⟨[], .error f, run_throw.2 ⟨rfl, rfl⟩, ht, hresp⟩
  run := by
    intro tr₁ o h
    obtain ⟨rfl, -⟩ := run_throw.1 h
    exact ⟨tr, r, hp, htr⟩

theorem answers_v1 (hc : req.counterpart = some req') (hq : req.ask = some q) {handle : Handle}
    (hp : Handle.parse q.ctTempkey = some handle) {y : Attempt Failure Answer}
    (hy : requested q .v1 st handle = ExceptT.adapt (Failure.response .v1) y) :
    Answers (serve st req) y IsV1 where
  outcome := by
    intro tr r h
    obtain ⟨id, tr₁, rfl, h'⟩ := (run_v1 hc hq hp).1 h
    rw [hy] at h'
    rcases h' with ⟨a, hok, rfl⟩ | herr
    · exact ⟨tr₁, .ok a, run_adapt_ok.1 hok, worldly_cons rfl _, rfl⟩
    · obtain ⟨f, rfl, hr⟩ := run_adapt_error.1 herr
      exact ⟨tr₁, .error f, hr, worldly_cons rfl _, rfl⟩
  run := by
    intro tr₁ o h
    refine ⟨⟨.newUuid, ""⟩ :: tr₁, v1Response o, (run_v1 hc hq hp).2 ⟨"", tr₁, rfl, ?_⟩,
      worldly_cons rfl _⟩
    rw [hy]
    rcases o with f | a
    · exact .inr (run_adapt_error.2 ⟨f, rfl, h⟩)
    · exact .inl ⟨a, run_adapt_ok.2 h, rfl⟩

theorem answers_v2 (hc : req.counterpart = some req') (hq : req.ask = some q) {handle : Handle}
    (hp : Handle.parse q.ctTempkey = some handle) {y : Attempt Failure Answer}
    (hy : requested q .v2 st handle = ExceptT.adapt (Failure.response .v2) y) :
    Answers (serve st req') y IsV2 where
  outcome := by
    intro tr r h
    obtain ⟨id, now, tr₁, rfl, h'⟩ := (run_v2 hc hq hp).1 h
    rw [hy] at h'
    have hid : ∀ tr : Trace sig, Worldly (⟨.newUuid, id⟩ :: ⟨.utcNow, now⟩ :: tr) tr :=
      fun tr => (worldly_cons rfl _).trans (worldly_cons rfl _)
    rcases h' with ⟨a, x, tr₂, rfl, hok, rfl⟩ | herr
    · exact ⟨tr₂, .ok a, run_adapt_ok.1 hok, (hid _).trans (worldly_put id now a x tr₂), id, rfl⟩
    · obtain ⟨f, rfl, hr⟩ := run_adapt_error.1 herr
      exact ⟨tr₁, .error f, hr, hid _, id, rfl⟩
  run := by
    intro tr₁ o h
    have hid : ∀ tr : Trace sig, Worldly (⟨.newUuid, ""⟩ :: ⟨.utcNow, ""⟩ :: tr) tr :=
      fun tr => (worldly_cons rfl _).trans (worldly_cons rfl _)
    rcases o with f | a
    · refine ⟨_, f.response .v2, (run_v2 hc hq hp).2 ⟨"", "", tr₁, rfl, .inr ?_⟩, hid _⟩
      rw [hy]
      exact run_adapt_error.2 ⟨f, rfl, h⟩
    · obtain ⟨x⟩ : Nonempty (v2Put "" "" a).Ans := by
        obtain ⟨_ | _, _, _⟩ := a <;> exact ⟨()⟩
      refine ⟨_, .okJson (v2Body "" a), (run_v2 hc hq hp).2 ⟨"", "", _, rfl,
        .inl ⟨a, x, tr₁, rfl, ?_, rfl⟩⟩, (hid _).trans (worldly_put "" "" a x tr₁)⟩
      rw [hy]
      exact run_adapt_ok.2 h

/-- A request whose body was refused is answered at once. -/
theorem serve_unread (st : AppState) (hc : req.counterpart = some req') (hq : req.ask = none) :
    ∃ f : Failure, serve st req = .pure (f.response .v1)
      ∧ serve st req' = .pure (f.response .v2) := by
  rcases req with ⟨headers, rej | req⟩ | ⟨headers, rej | req⟩ | ⟨headers, rej | req⟩
    | ⟨headers, rej | req⟩ | id | id
  all_goals simp only [Request.counterpart, Request.ask, Option.some.injEq, reduceCtorEq] at hc hq
  · subst hc
    obtain ⟨f, hf⟩ := encodes_reject rej
    refine ⟨f, ?_, ?_⟩
    · rw [← hf]
      rfl
    · rw [← hf]
      rfl
  · subst hc
    obtain ⟨f, hf⟩ := encodes_reject rej
    refine ⟨f, ?_, ?_⟩
    · rw [← hf]
      rfl
    · rw [← hf]
      rfl

theorem answers_pure {p : Task Response} {f : Failure} {r : Response}
    {response : Except Failure Answer → Response → Prop} (hp : p = .pure r)
    (hr : response (.error f) r) : Answers p (throw f) response := by
  subst hp
  refine answers_refused (run_pure.2 ⟨rfl, rfl⟩) (fun _ => .rfl) ?_ hr
  intro tr' r' h
  obtain ⟨rfl, rfl⟩ := run_pure.1 h
  exact ⟨rfl, fun _ => .rfl⟩

/-- A malformed handle is refused once the request has its id. -/
theorem answers_malformed {p : Task Response} {api : ApiVersion} {f : Failure} {raw : String}
    {k : String → Handle → Attempt Response Response}
    {response : Except Failure Answer → Response → Prop}
    (hp : p = respond (do
      let id ← attempt .newUuid
      let handle ← parseHandle api raw
      k id handle))
    (hraw : Handle.parse raw = none) (hf : f.response api = api.err 400 "bad_request")
    (hr : response (.error f) (f.response api)) : Answers p (throw f) response := by
  subst hp
  simp only [parseHandle, hraw, throw_bind, ← hf]
  have hrun : Run (respond do
      let _ ← attempt .newUuid
      throw (f.response api)) [⟨.newUuid, ""⟩] (f.response api) :=
    run_respond.2 (.inr (run_attemptBind.2 ⟨"", [], rfl, run_throw.2 ⟨rfl, rfl⟩⟩))
  refine answers_refused hrun (worldly_cons rfl _) ?_ hr
  intro tr' r' h
  rcases run_respond.1 h with h | h
  · obtain ⟨id, tr₁, rfl, h₁⟩ := run_attemptBind.1 h
    obtain ⟨-, he⟩ := run_throw.1 h₁
    cases he
  · obtain ⟨id, tr₁, rfl, h₁⟩ := run_attemptBind.1 h
    obtain ⟨rfl, he⟩ := run_throw.1 h₁
    cases he
    exact ⟨rfl, worldly_cons rfl _⟩

/-- Both versions of a request come to the outcomes of one determined program. -/
theorem serve_outcome (st : AppState) (hc : req.counterpart = some req') :
    ∃ y : Attempt Failure Answer, Determined Op.service y.run
      ∧ Answers (serve st req) y IsV1 ∧ Answers (serve st req') y IsV2 := by
  rcases hq : req.ask with _ | q
  · obtain ⟨f, h₁, h₂⟩ := serve_unread st hc hq
    exact ⟨throw f, .pure _, answers_pure h₁ rfl, answers_pure h₂ ⟨"", rfl⟩⟩
  rcases hp : Handle.parse q.ctTempkey with _ | handle
  · let f : Failure := .terminal 400 "bad_request" (by simp)
    exact ⟨throw f, .pure _, answers_malformed (f := f) (serve_v1 hc hq) hp rfl rfl,
      answers_malformed (f := f) (serve_v2 hc hq) hp rfl ⟨"", rfl⟩⟩
  · obtain ⟨y, hy, hapi⟩ := encoded_requested q st handle
    exact ⟨y, hy, answers_v1 hc hq hp (hapi .v1), answers_v2 hc hq hp (hapi .v2)⟩

end

/-! ## The responses -/

/-- Every request of the four routes is one of two versions. -/
theorem Request.paired {req : Request} {q : Ask} (hq : req.ask = some q) :
    (∃ req', req.counterpart = some req')
      ∨ ∃ req' : Request, req'.counterpart = some req := by
  rcases req with ⟨headers, body⟩ | ⟨headers, body⟩ | ⟨headers, body⟩ | ⟨headers, body⟩ | id | id
  · exact .inl ⟨_, rfl⟩
  · exact .inl ⟨_, rfl⟩
  · exact .inr ⟨.decrypt headers body, rfl⟩
  · exact .inr ⟨.sealoutput headers body, rfl⟩
  · cases hq
  · cases hq

/-- A 200 carries an answer. -/
theorem answer_of_status {st : AppState} {req : Request} {q : Ask} (hq : req.ask = some q)
    {tr : Trace sig} {resp : Response} (h : Run (serve st req) tr resp) (hs : resp.status = 200) :
    ∃ a, resp.answer = some a := by
  rcases Request.paired hq with ⟨req', hc⟩ | ⟨req', hc⟩
  · obtain ⟨y, -, h₁, -⟩ := serve_outcome st hc
    obtain ⟨-, o, -, -, rfl⟩ := h₁.outcome tr resp h
    rcases o with (⟨status, code, hne⟩ | reason) | a
    · exact absurd hs hne.1
    · cases reason <;> cases hs
    · exact ⟨a, by simp [v1Response]⟩
  · obtain ⟨y, -, -, h₂⟩ := serve_outcome st hc
    obtain ⟨-, o, -, -, id, rfl⟩ := h₂.outcome tr resp h
    rcases o with (⟨status, code, hne⟩ | reason) | a
    · exact absurd hs hne.1
    · cases hs
    · exact ⟨a, by simp [v2Response]⟩

end Teecryptor
