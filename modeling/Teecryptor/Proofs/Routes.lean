import Teecryptor.Proofs.Events

/-!
# One shape for the four routes

A request on `/decrypt`, `/sealoutput` or their v2 counterparts enters, runs `fetch_decrypt`, and
finishes with the value: `serve_eq`. What is proved about `fetch_decrypt` reaches every route
through it.
-/

namespace Teecryptor

open Interact Interact.Prog Rust

/-- What a request on one of the four routes asks for. -/
structure Ask where
  api : ApiVersion
  seals : Bool
  headers : HeaderMap
  ctTempkey : String
  hostChainId : UInt64
  acp : Option AcpData

/-- The request as it is asked, if its body was read and it is not a poll. -/
def Request.ask : Request → Option Ask
  | .decrypt headers (.ok req) =>
    some ⟨.v1, false, headers, req.ctTempkey, req.hostChainId, req.acp⟩
  | .sealoutput headers (.ok req) =>
    some ⟨.v1, true, headers, req.ctTempkey, req.hostChainId, req.acp⟩
  | .v2Decrypt headers (.ok req) =>
    some ⟨.v2, false, headers, req.ctTempkey, req.hostChainId, req.acp⟩
  | .v2Sealoutput headers (.ok req) =>
    some ⟨.v2, true, headers, req.ctTempkey, req.hostChainId, req.acp⟩
  | _ => none

/-- What a request has when it comes to `fetch_decrypt`. -/
structure Entered where
  requestId : String
  now : String
  handle : Handle
  sealTo : Option AcpData

namespace Ask

variable (q : Ask)

def clock : Attempt Response String :=
  match q.api with
  | .v1 => pure ""
  | .v2 => attempt .utcNow

def recipient : Attempt Response (Option AcpData) :=
  match q.seals with
  | false => pure none
  | true => do
    let acp ← requireAcp q.api q.acp
    return some acp

def enter : Attempt Response Entered := do
  let requestId ← attempt .newUuid
  let handle ← parseHandle q.api q.ctTempkey
  let now ← q.clock
  let sealTo ← q.recipient
  return ⟨requestId, now, handle, sealTo⟩

/-- The response to a decrypted value, and its entry in the v2 cache. -/
def answerDecrypt (e : Entered) (pt : U256) (ty : EncryptionType) (signature : String) :
    Attempt Response Response :=
  let decrypted := (toBeBytes pt).1
  match q.api with
  | .v1 => return .okJson (.decrypt ⟨decrypted, signature, ty.toI32, none⟩)
  | .v2 => do
    attempt (.v2CachePut e.requestId ⟨decrypted, signature, ty.toI32, e.now, e.now⟩)
    return .okJson (.v2DecryptSubmit ⟨e.requestId, some decrypted, some signature, some ty.toI32⟩)

/-- The response to a sealed value, and its entry in the v2 cache. -/
def answerSeal (e : Entered) (sealed : SealedOutput) (ty : EncryptionType) (signature : String) :
    Attempt Response Response :=
  match q.api with
  | .v1 => return .okJson (.sealOutput
      ⟨some ⟨sealed.data, sealed.publicKey, sealed.nonce⟩, signature, ty.toI32, none⟩)
  | .v2 => do
    attempt (.v2SealCachePut e.requestId
      ⟨sealed.data, sealed.publicKey, sealed.nonce, signature, ty.toI32, e.now, e.now⟩)
    return .okJson (.v2SealOutputSubmit ⟨e.requestId, some sealed.data, some sealed.publicKey,
      some sealed.nonce, some signature, some ty.toI32⟩)

def finish (crates : Crates) (signer : Option Signer) (e : Entered) :
    U256 × EncryptionType → Attempt Response Response
  | (pt, ty) =>
    match e.sealTo with
    | none => do
      let signature ← resolveSignature q.api <| signer.map fun svc =>
        signDecrypt crates.keccak256 svc pt ty.toI32 q.hostChainId e.handle.asStr
          (parseVFormat q.headers)
      q.answerDecrypt e pt ty signature
    | some acp => do
      let recipientPk ← recipientKey q.api acp
      let sealed ← sealFor crates q.api recipientPk (ty.encode pt)
      let signature ← resolveSignature q.api <| signer.map fun svc =>
        signSealoutput crates.keccak256 svc sealed.data sealed.publicKey sealed.nonce ty.toI32
          q.hostChainId e.handle.asStr (parseVFormat q.headers)
      q.answerSeal e sealed ty signature

end Ask

theorem serve_eq (st : AppState) {req : Request} {q : Ask} (h : req.ask = some q) :
    serve st req = respond (do
      let e ← q.enter
      let out ← fetchDecrypt st e.handle q.hostChainId q.acp q.api
      q.finish st.crates st.signer e out) := by
  rcases req with ⟨headers, _ | req⟩ | ⟨headers, _ | req⟩ | ⟨headers, _ | req⟩
    | ⟨headers, _ | req⟩ | id | id
  all_goals simp only [Request.ask, Option.some.injEq, reduceCtorEq] at h
  · subst h
    simp only [serve, Labelled.serve, Labelled.handleDecrypt, rejectBody, quiet_plain,
        write_plain, fetchDecrypt_plain, respond_plain, Ask.enter,
      Ask.clock, Ask.recipient, Ask.finish, Ask.answerDecrypt, bind_assoc, pure_bind]
  · subst h
    rcases hacp : req.acp with _ | acp
    · simp only [serve, Labelled.serve, Labelled.handleSealoutput, rejectBody, quiet_plain,
        write_plain, fetchDecrypt_plain, respond_plain, Ask.enter,
        Ask.clock, Ask.recipient, requireAcp, hacp, bind_assoc, pure_bind, throw_bind]
    · simp only [serve, Labelled.serve, Labelled.handleSealoutput, rejectBody, quiet_plain,
        write_plain, fetchDecrypt_plain, respond_plain, Ask.enter,
        Ask.clock, Ask.recipient, requireAcp, Ask.finish, Ask.answerSeal, hacp, bind_assoc,
        pure_bind]
  · subst h
    simp only [serve, Labelled.serve, Labelled.handleDecryptV2Submit, rejectBody, quiet_plain,
        write_plain, fetchDecrypt_plain, respond_plain, Ask.enter,
      Ask.clock, Ask.recipient, Ask.finish, Ask.answerDecrypt, bind_assoc, pure_bind]
  · subst h
    rcases hacp : req.acp with _ | acp
    · simp only [serve, Labelled.serve, Labelled.handleSealoutputV2Submit, rejectBody, quiet_plain,
        write_plain, fetchDecrypt_plain, respond_plain,
        Ask.enter, Ask.clock, Ask.recipient, requireAcp, hacp, bind_assoc, pure_bind, throw_bind]
    · simp only [serve, Labelled.serve, Labelled.handleSealoutputV2Submit, rejectBody, quiet_plain,
        write_plain, fetchDecrypt_plain, respond_plain,
        Ask.enter, Ask.clock, Ask.recipient, requireAcp, Ask.finish, Ask.answerSeal, hacp,
        bind_assoc, pure_bind]

/-! ## Runs of a route -/

section

variable {q : Ask} {tr : Trace sig}

theorem run_respond {h : Attempt Response Response} {resp : Response} :
    Run (respond h) tr resp ↔ Run h.run tr (.ok resp) ∨ Run h.run tr (.error resp) := by
  rw [respond, Labelled.respond, bind_eq, run_bind]
  constructor
  · rintro ⟨tr₁, tr₂, r | r, rfl, h₁, h₂⟩
    · obtain ⟨rfl, rfl⟩ := run_pure.1 h₂
      exact .inr (by simpa using h₁)
    · obtain ⟨rfl, rfl⟩ := run_pure.1 h₂
      exact .inl (by simpa using h₁)
  · rintro (h | h)
    · exact ⟨tr, [], .ok resp, by simp, h, run_pure.2 ⟨rfl, rfl⟩⟩
    · exact ⟨tr, [], .error resp, by simp, h, run_pure.2 ⟨rfl, rfl⟩⟩

/-- A request ends before `fetch_decrypt`, in it, or after it. -/
theorem run_serve {st : AppState} {req : Request} (hq : req.ask = some q) {resp : Response} :
    Run (serve st req) tr resp ↔
      Run q.enter.run tr (.error resp)
      ∨ ∃ trE tr' e, tr = trE ++ tr' ∧ Run q.enter.run trE (.ok e)
        ∧ (Run (fetchDecrypt st e.handle q.hostChainId q.acp q.api).run tr' (.error resp)
          ∨ ∃ trF trZ out, tr' = trF ++ trZ
            ∧ Run (fetchDecrypt st e.handle q.hostChainId q.acp q.api).run trF (.ok out)
            ∧ (Run (q.finish st.crates st.signer e out).run trZ (.ok resp)
              ∨ Run (q.finish st.crates st.signer e out).run trZ (.error resp))) := by
  rw [serve_eq st hq, run_respond]
  constructor
  · rintro (h | h)
    · rcases run_exceptBind.1 h with ⟨e, he, -⟩ | ⟨trE, tr', e, rfl, hE, h'⟩
      · simp at he
      rcases run_exceptBind.1 h' with ⟨e, he, -⟩ | ⟨trF, trZ, out, rfl, hF, hZ⟩
      · simp at he
      exact .inr ⟨trE, _, e, rfl, hE, .inr ⟨trF, trZ, out, rfl, hF, .inl hZ⟩⟩
    · rcases run_exceptBind.1 h with ⟨e, he, hE⟩ | ⟨trE, tr', e, rfl, hE, h'⟩
      · cases he
        exact .inl hE
      rcases run_exceptBind.1 h' with ⟨r, hr, hF⟩ | ⟨trF, trZ, out, rfl, hF, hZ⟩
      · cases hr
        exact .inr ⟨trE, tr', e, rfl, hE, .inl hF⟩
      exact .inr ⟨trE, _, e, rfl, hE, .inr ⟨trF, trZ, out, rfl, hF, .inr hZ⟩⟩
  · rintro (h | ⟨trE, tr', e, rfl, hE, h | ⟨trF, trZ, out, rfl, hF, h | h⟩⟩)
    · exact .inr (run_exceptBind.2 (.inl ⟨resp, rfl, h⟩))
    · exact .inr (run_exceptBind.2 (.inr ⟨trE, tr', e, rfl, hE,
        run_exceptBind.2 (.inl ⟨resp, rfl, h⟩)⟩))
    · exact .inl (run_exceptBind.2 (.inr ⟨trE, _, e, rfl, hE,
        run_exceptBind.2 (.inr ⟨trF, trZ, out, rfl, hF, h⟩)⟩))
    · exact .inr (run_exceptBind.2 (.inr ⟨trE, _, e, rfl, hE,
        run_exceptBind.2 (.inr ⟨trF, trZ, out, rfl, hF, h⟩)⟩))

/-- What entering gives: the parsed handle, and for sealing the request's ACP, which has to be
there. -/
theorem enter_ok {e : Entered} (h : Run q.enter.run tr (.ok e)) :
    Handle.parse q.ctTempkey = some e.handle
      ∧ e.sealTo = (if q.seals then q.acp else none)
      ∧ (q.seals = true → ∃ acp, q.acp = some acp) := by
  obtain ⟨id, tr₁, rfl, h₁⟩ := run_attemptBind.1 h
  rcases run_exceptBind.1 h₁ with ⟨_, he, -⟩ | ⟨tr₂, tr₃, handle, rfl, h₂, h₃⟩
  · simp at he
  rcases run_exceptBind.1 h₃ with ⟨_, he, -⟩ | ⟨tr₄, tr₅, now, rfl, -, h₅⟩
  · simp at he
  rcases run_exceptBind.1 h₅ with ⟨_, he, -⟩ | ⟨tr₆, tr₇, sealTo, rfl, h₆, h₇⟩
  · simp at he
  obtain ⟨rfl, he⟩ := run_exceptPure.1 h₇
  cases he
  refine ⟨?_, ?_⟩
  · rcases hp : Handle.parse q.ctTempkey with _ | handle'
    · simp [parseHandle, hp, run_pure] at h₂
    · simp only [parseHandle, hp, run_exceptPure, Except.ok.injEq] at h₂
      rw [h₂.2]
  · rcases hs : q.seals with _ | _
    · simp only [Ask.recipient, hs, run_exceptPure, Except.ok.injEq] at h₆
      simp [h₆.2]
    · simp only [Ask.recipient, hs] at h₆
      rcases ha : q.acp with _ | acp
      · simp [requireAcp, ha, run_pure] at h₆
      · simp only [requireAcp, ha, pure_bind, run_exceptPure, Except.ok.injEq] at h₆
        simp [h₆.2]

theorem only_enter :
    Always (Only fun e : Event sig => e.1 = Op.newUuid ∨ e.1 = Op.utcNow) q.enter.run := by
  have hO := mixes_only fun e : Event sig => e.1 = Op.newUuid ∨ e.1 = Op.utcNow
  refine hO.exceptBind (only_attempt fun x => .inl rfl) fun id => ?_
  refine hO.exceptBind ?_ fun handle => hO.exceptBind ?_ fun now => hO.exceptBind ?_ fun s =>
    always_exceptPure hO _
  · unfold parseHandle
    split
    · exact always_exceptPure hO _
    · exact always_throw hO _
  · unfold Ask.clock
    split
    · exact always_exceptPure hO _
    · exact only_attempt fun x => .inr rfl
  · unfold Ask.recipient
    split
    · exact always_exceptPure hO _
    · refine hO.exceptBind ?_ fun acp => always_exceptPure hO _
      unfold requireAcp
      split
      · exact always_exceptPure hO _
      · exact always_throw hO _

theorem rest_enter : Always (Only (Of .rest)) q.enter.run :=
  only_enter.mono fun tr h => h.mono fun e he => by
    unfold Of
    rcases he with he | he
    · rw [he]
      rfl
    · rw [he]
      rfl

theorem only_sealToUser {Q : Event sig → Prop} (hk : ∀ x, Q ⟨.keyPairGen, x⟩)
    (hn : ∀ x, Q ⟨.nonceGen, x⟩) (box : CryptoBox) (pk plaintext : List UInt8) :
    Always (Only Q) (sealToUser box pk plaintext).run := by
  have hO := mixes_only Q
  unfold sealToUser
  split
  · exact always_throw hO _
  split
  · exact always_throw hO _
  refine hO.exceptBind (only_attempt hk) fun kp => ?_
  refine hO.exceptBind (only_attempt hn) fun nonce => ?_
  split
  · exact always_throw hO _
  · exact always_exceptPure hO _

theorem only_sealFor {Q : Event sig → Prop} (hk : ∀ x, Q ⟨.keyPairGen, x⟩)
    (hn : ∀ x, Q ⟨.nonceGen, x⟩) (crates : Crates) (api : ApiVersion) (pk plaintext : List UInt8) :
    Always (Only Q) (sealFor crates api pk plaintext).run :=
  (mixes_only Q).exceptBind ((mixes_only Q).lift (only_sealToUser hk hn _ _ _)) fun _ =>
    always_ofExcept (mixes_only Q) _

theorem only_resolveSignature {P : Trace sig → Prop} (hP : Mixes P) (api : ApiVersion)
    (s : Option (Except SigningError String)) : Always P (resolveSignature api s).run := by
  rcases s with _ | (_ | _)
  · exact always_exceptPure hP _
  · exact always_throw hP _
  · exact always_exceptPure hP _

theorem only_recipientKey {P : Trace sig → Prop} (hP : Mixes P) (api : ApiVersion)
    (acp : AcpData) : Always P (recipientKey api acp).run := by
  unfold recipientKey
  split
  · exact always_exceptPure hP _
  · exact always_throw hP _

theorem only_finish {Q : Event sig → Prop} (hk : ∀ x, Q ⟨.keyPairGen, x⟩)
    (hn : ∀ x, Q ⟨.nonceGen, x⟩) (hd : ∀ id r x, Q ⟨.v2CachePut id r, x⟩)
    (hs : ∀ id r x, Q ⟨.v2SealCachePut id r, x⟩) (crates : Crates) (signer : Option Signer)
    (e : Entered) (out : U256 × EncryptionType) :
    Always (Only Q) (q.finish crates signer e out).run := by
  have hO := mixes_only Q
  obtain ⟨pt, ty⟩ := out
  simp only [Ask.finish]
  split
  · refine hO.exceptBind (only_resolveSignature hO _ _) fun signature => ?_
    unfold Ask.answerDecrypt
    split
    · exact always_exceptPure hO _
    · exact hO.exceptBind (only_attempt (hd _ _)) fun x => always_exceptPure hO _
  · refine hO.exceptBind (only_recipientKey hO _ _) fun pk => hO.exceptBind
      (only_sealFor hk hn _ _ _ _) fun sealed =>
      hO.exceptBind (only_resolveSignature hO _ _) fun signature => ?_
    unfold Ask.answerSeal
    split
    · exact always_exceptPure hO _
    · exact hO.exceptBind (only_attempt (hs _ _)) fun x => always_exceptPure hO _

theorem rest_finish (crates : Crates) (signer : Option Signer) (e : Entered)
    (out : U256 × EncryptionType) :
    Always (Only (Of .rest)) (q.finish crates signer e out).run :=
  only_finish (fun _ => rfl) (fun _ => rfl) (fun _ _ _ => rfl) (fun _ _ _ => rfl) _ _ _ _

/-- A request that asks for nothing to be decrypted has its body refused, or polls. -/
theorem unasked_cases {req : Request} (hq : req.ask = none) :
    (∃ api rejection, ∀ st, serve st req = .pure (ApiVersion.reject api rejection))
      ∨ (∃ id, req = .v2DecryptStatus id) ∨ ∃ id, req = .v2SealoutputStatus id := by
  rcases req with ⟨headers, rej | req⟩ | ⟨headers, rej | req⟩ | ⟨headers, rej | req⟩
    | ⟨headers, rej | req⟩ | id | id
  · exact .inl ⟨.v1, rej, fun _ => rfl⟩
  · simp [Request.ask] at hq
  · exact .inl ⟨.v1, rej, fun _ => rfl⟩
  · simp [Request.ask] at hq
  · exact .inl ⟨.v2, rej, fun _ => rfl⟩
  · simp [Request.ask] at hq
  · exact .inl ⟨.v2, rej, fun _ => rfl⟩
  · simp [Request.ask] at hq
  · exact .inr (.inl ⟨id, rfl⟩)
  · exact .inr (.inr ⟨id, rfl⟩)

/-- A poll reads one of the result caches, and a request whose body was refused does nothing. -/
theorem only_poll {Q : Event sig → Prop} {st : AppState} {req : Request} (hq : req.ask = none)
    (hd : ∀ id x, Q ⟨.v2CacheGet id, x⟩) (hs : ∀ id x, Q ⟨.v2SealCacheGet id, x⟩) :
    Always (Only Q) (serve st req) := by
  have hO := mixes_only Q
  rcases unasked_cases hq with ⟨api, rejection, hserve⟩ | ⟨id, rfl⟩ | ⟨id, rfl⟩
  · rw [hserve]
    exact hO.pure _
  · refine hO.bind (only_perform (hd id)) fun r => ?_
    rcases r with _ | r
    · exact hO.pure _
    · exact hO.pure _
  · refine hO.bind (only_perform (hs id)) fun r => ?_
    rcases r with _ | r
    · exact hO.pure _
    · exact hO.pure _

/-- What `fetch_decrypt` keeps, and the events around it do, a request keeps. -/
theorem always_serve {P : Trace sig → Prop} (hP : Mixes P) {st : AppState}
    (hrest : ∀ tr, Only (Of .rest) tr → P tr)
    (hfetch : ∀ handle hostChainId acp api,
      Always P (fetchDecrypt st handle hostChainId acp api).run) (req : Request) :
    Always P (serve st req) := by
  rcases hq : req.ask with _ | q
  · exact (only_poll hq (fun _ _ => rfl) fun _ _ => rfl).mono hrest
  · rw [serve_eq st hq]
    refine hP.bind (hP.exceptBind (rest_enter.mono hrest) fun e =>
      hP.exceptBind (hfetch _ _ _ _) fun out => (rest_finish _ _ _ _).mono hrest) fun r => ?_
    rcases r with resp | resp
    · exact hP.pure _
    · exact hP.pure _

end

end Teecryptor
