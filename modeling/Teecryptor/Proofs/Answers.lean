import Teecryptor.Proofs.Routes

/-!
# Responses with a result

The result a 200 of the four routes carries, and where it comes from: no early response has one,
so a request that is answered with one went through `fetch_decrypt` to its end (`serve_answer`).
-/

namespace Teecryptor

open Interact Interact.Prog Rust

inductive Result
  | decrypted (bytes : List UInt8)
  | sealed (output : SealedOutput)
  deriving DecidableEq

structure Answer where
  result : Result
  signature : String
  encryptionType : ℤ
  deriving DecidableEq

def Body.answer : Body → Option Answer
  | .decrypt r => some ⟨.decrypted r.decrypted, r.signature, r.encryptionType⟩
  | .sealOutput r => do
    let s ← r.sealed
    return ⟨.sealed ⟨s.data, s.publicKey, s.nonce⟩, r.signature, r.encryptionType⟩
  | .v2DecryptSubmit r => do
    return ⟨.decrypted (← r.decrypted), ← r.signature, ← r.encryptionType⟩
  | .v2SealOutputSubmit r => do
    return ⟨.sealed ⟨← r.sealedData, ← r.ephemeralPublicKey, ← r.nonce⟩, ← r.signature,
      ← r.encryptionType⟩
  | _ => none

/-- The result a 200 carries. -/
def Response.answer (r : Response) : Option Answer :=
  if r.status = 200 then r.body.answer else none

@[simp] theorem answer_err (api : ApiVersion) (status : ℕ) (code : String) :
    (api.err status code).answer = none := by
  unfold Response.answer
  split <;> rfl

@[simp] theorem answer_retryable (api : ApiVersion) (reason : RetryReason) :
    (api.retryable reason).answer = none := by
  cases api
  · exact answer_err _ _ _
  · simp [Response.answer, ApiVersion.retryable, retryable204]

@[simp] theorem answer_okJson (b : Body) : (Response.okJson b).answer = b.answer := by
  simp [Response.answer, Response.okJson]

/-! ## Early responses -/

section

variable {α β : Type}

/-- When `x` stops early, it is with a response that has `P`. -/
def StopsWith (P : Response → Prop) (x : Attempt Response α) : Prop :=
  ∀ tr resp, Run x.run tr (.error resp) → P resp

/-- When `x` runs to its end, what it returns has `P`. -/
def ReturnsWith (P : α → Prop) (x : Attempt Response α) : Prop :=
  ∀ tr a, Run x.run tr (.ok a) → P a

theorem ReturnsWith.bind {P : β → Prop} {x : Attempt Response α} {f : α → Attempt Response β}
    (hf : ∀ a, ReturnsWith P (f a)) : ReturnsWith P (x >>= f) := by
  intro tr b h
  rcases run_exceptBind.1 h with ⟨e, he, -⟩ | ⟨tr₁, tr₂, a, rfl, -, h₂⟩
  · cases he
  · exact hf a _ _ h₂

theorem returns_pure {P : α → Prop} {a : α} (h : P a) :
    ReturnsWith P (pure a : Attempt Response α) := by
  intro tr b hb
  cases (run_exceptPure.1 hb).2
  exact h

variable {P : Response → Prop}

theorem StopsWith.bind {x : Attempt Response α} {f : α → Attempt Response β} (hx : StopsWith P x)
    (hf : ∀ a, StopsWith P (f a)) : StopsWith P (x >>= f) := by
  intro tr resp h
  rcases run_exceptBind.1 h with ⟨e, he, h'⟩ | ⟨tr₁, tr₂, a, rfl, -, h₂⟩
  · cases he
    exact hx _ _ h'
  · exact hf a _ _ h₂

theorem stops_pure (a : α) : StopsWith P (pure a : Attempt Response α) := by
  intro tr resp h
  simp [run_pure] at h

theorem stops_attempt (o : Op) : StopsWith P (attempt o : Attempt Response o.Ans) := by
  intro tr resp h
  obtain ⟨x, hx, -⟩ := run_attempt.1 h
  simp at hx

theorem stops_lift (p : Task α) : StopsWith P (ExceptT.lift p) := by
  intro tr resp h
  obtain ⟨x, hx, -⟩ := run_lift.1 h
  simp at hx

theorem stops_throw {resp : Response} (h : P resp) :
    StopsWith P (throw resp : Attempt Response α) := by
  intro tr resp' h'
  obtain ⟨-, hr⟩ := run_throw.1 h'
  cases hr
  exact h

theorem stops_ofExcept {r : Except Response α} (h : ∀ resp, r = .error resp → P resp) :
    StopsWith P (Attempt.ofExcept r) := by
  intro tr resp h'
  obtain ⟨-, hr⟩ := run_ofExcept.1 h'
  exact h resp hr.symm

theorem stops_refuse {warnOnly : Bool} {reason : String} {allowed : α} {resp : Response}
    (h : P resp) : StopsWith P (refuse warnOnly reason allowed resp) := by
  unfold refuse
  split
  · exact (stops_attempt _).bind fun _ => stops_pure _
  · exact (stops_attempt _).bind fun _ => stops_throw h

end

theorem answer_acpResponse {api : ApiVersion} (presented : Bool) (e : AcpError) :
    (acpResponse api presented e).answer = none := by
  cases e <;> cases presented <;> simp [acpResponse]

/-- The error codes a request can be stopped with, other than the commitment check's
`commitment_mismatch`. -/
def errorCodes : List String :=
  ["bad_request", "unknown_chain", "acp_required", "acp_malformed", "acp_denied", "acp_expired",
    "acp_invalid", "not_publicly_allowed", "acp_verifier_timeout", "acp_verifier_error",
    "commitment_verifier_timeout", "commitment_verifier_error", "ct_not_found",
    "ct_source_timeout", "ct_source_error", "unsupported_security_zone", "unsupported_type",
    "ct_type_mismatch", "ct_zone_mismatch", "internal_error", "seal_failed", "signing_failed"]

/-- The errors with those codes, each with its status. -/
def apiErrors : List (ℕ × String) :=
  [(400, "bad_request"), (400, "unknown_chain"), (400, "acp_required"), (400, "acp_malformed"),
    (401, "acp_denied"), (401, "acp_expired"), (401, "acp_invalid"), (403, "not_publicly_allowed"),
    (504, "acp_verifier_timeout"), (502, "acp_verifier_error"),
    (504, "commitment_verifier_timeout"), (502, "commitment_verifier_error"),
    (404, "ct_not_found"), (504, "ct_source_timeout"), (502, "ct_source_error"),
    (422, "unsupported_security_zone"), (422, "unsupported_type"), (502, "ct_type_mismatch"),
    (502, "ct_zone_mismatch"), (500, "internal_error"), (500, "seal_failed"),
    (500, "signing_failed")]

theorem code_mem_errorCodes {status : ℕ} {code : String} (h : (status, code) ∈ apiErrors) :
    code ∈ errorCodes := by
  have hall : ∀ e ∈ apiErrors, e.2 ∈ errorCodes := by decide
  exact hall _ h

section

variable {st : AppState} {handle : Handle} {hostChainId : UInt64} {acp : Option AcpData}
  {api : ApiVersion} {P : Response → Prop}
  (herr : ∀ status code, (status, code) ∈ apiErrors → P (api.err status code))
  (hretry : ∀ reason ≠ .overloaded, P (api.retryable reason))

include herr

theorem stops_acpGate {tr : Trace sig} {resp : Response}
    (h : Run (acpGate st handle hostChainId acp api) tr (some resp)) : P resp := by
  unfold acpGate at h
  split at h
  · rcases run_enforceAcp.1 h with ⟨hr, -⟩ | ⟨e, hr, -⟩
    · simp at hr
    · cases hr
      cases e
      case denied => cases acp.isSome <;> exact herr _ _ (by decide)
      all_goals exact herr _ _ (by decide)
  · simp [run_pure] at h

theorem stops_decryptServed (ct : FheCiphertext) :
    StopsWith P (decryptServed st handle api ct) := by
  rw [decryptServed_eq]
  refine StopsWith.bind ?_ fun ty => StopsWith.bind ?_ fun pt => stops_pure _
  · unfold checkMetadata
    simp only
    split
    · exact stops_throw (herr _ _ (by decide))
    split
    · exact stops_throw (herr _ _ (by decide))
    split
    · exact (stops_attempt _).bind fun _ => stops_throw (herr _ _ (by decide))
    split
    · exact (stops_attempt _).bind fun _ => stops_throw (herr _ _ (by decide))
    · exact stops_pure _
  · refine (stops_lift _).bind fun r => stops_ofExcept fun resp hr => ?_
    rcases r with p | (e | pt)
    · cases hr
      exact herr _ _ (by decide)
    · cases hr
      exact herr _ _ (by decide)
    · cases hr

include hretry

theorem stops_commitmentGate : StopsWith P (commitmentGate st handle hostChainId api) := by
  unfold commitmentGate
  split
  · refine StopsWith.bind (stops_lift _) fun r => ?_
    rcases r with e | f
    · refine stops_refuse ?_
      cases e
      case notFound => exact hretry _ (by decide)
      all_goals exact herr _ _ (by decide)
    · exact stops_pure _
  · exact stops_pure _

theorem stops_gates : StopsWith P (gates st handle hostChainId acp api) := by
  intro tr resp h
  obtain ⟨trA, trC, a, c, -, hA, hC, hr⟩ := run_gates.1 h
  rcases a with _ | resp'
  · simp only at hr
    subst hr
    exact stops_commitmentGate herr hretry _ _ hC
  · cases hr
    exact stops_acpGate herr hA

theorem stops_servedRow {reply : HttpReply} {resp : Response}
    (h : servedRow st handle api reply = .error resp) : P resp := by
  unfold servedRow at h
  split at h
  next e _ =>
    cases h
    cases e
    case notReady => exact hretry _ (by decide)
    all_goals exact herr _ _ (by decide)
  next ct _ =>
    split at h
    next resp' hf =>
      cases h
      unfold checkForm at hf
      split_ifs at hf
      · cases hf
        exact herr _ _ (by decide)
      · cases hf
        exact herr _ _ (by decide)
    next => cases h

end

section

variable {st : AppState} {handle : Handle} {hostChainId : UInt64} {acp : Option AcpData}
  {api : ApiVersion} {P : Response → Prop}
  (herr : ∀ status code, (status, code) ∈ apiErrors → P (api.err status code))
  (hretry : ∀ reason ≠ .overloaded, P (api.retryable reason))
  (hmis : P (api.err 502 "commitment_mismatch"))

include hmis

theorem stops_judgeCommitment (warnOnly : Bool) (actual : FixedBytes 32)
    (expected : CommitHash) : StopsWith P (judgeCommitment api warnOnly actual expected) := by
  unfold judgeCommitment
  split
  · exact stops_pure _
  · exact stops_refuse hmis

include hretry

theorem stops_integrityGate (expected : Option FetchedCommitment) (data : List UInt8) :
    StopsWith P (integrityGate st handle hostChainId api expected data) := by
  have hjudge := stops_judgeCommitment hmis
  unfold integrityGate
  split
  · rcases st.commitmentVerifier with _ | cfg
    · exact hjudge _ _ _
    simp only [enforceCommitmentIntegrity]
    split
    · refine StopsWith.bind (stops_lift _) fun r => ?_
      rcases r with (_ | m | d | m) | c
      · exact stops_refuse (hretry _ (by decide))
      · exact StopsWith.bind (stops_attempt _) fun _ => hjudge _ _ _
      · exact StopsWith.bind (stops_attempt _) fun _ => hjudge _ _ _
      · exact StopsWith.bind (stops_attempt _) fun _ => hjudge _ _ _
      · simp only
        split
        · exact stops_attempt _
        · exact hjudge _ _ _
    · exact hjudge _ _ _
  · exact stops_pure _

include herr

theorem stops_openRow (expected : Option FetchedCommitment) :
    StopsWith P (openRow st handle hostChainId api expected) := by
  intro tr resp h
  obtain ⟨reply, tr', -, ⟨resp', hs, -, hr⟩ | ⟨ct, -, h'⟩⟩ := run_openRow.1 h
  · cases hr
    exact stops_servedRow herr hretry hs
  · exact StopsWith.bind (stops_integrityGate hretry hmis _ _)
      (fun _ => stops_decryptServed herr ct) _ _ h'

theorem stops_admitted : StopsWith P (admitted st handle hostChainId acp api) := by
  rw [admitted_eq]
  exact (stops_gates herr hretry).bind fun expected => stops_openRow herr hretry hmis expected

theorem stops_fetchDecrypt (hshed : P (api.retryable .overloaded)) :
    StopsWith P (fetchDecrypt st handle hostChainId acp api) := by
  intro tr resp h
  rcases run_fetchDecrypt.1 h with ⟨-, hr⟩ | ⟨tr', -, h'⟩
  · cases hr
    exact hshed
  · exact stops_admitted herr hretry hmis _ _ h'

end

/-! ## Finished responses -/

section

variable {q : Ask} {crates : Crates} {signer : Option Signer} {e : Entered} {pt : U256}
  {ty : EncryptionType} {tr : Trace sig} {resp : Response}

theorem resolveSignature_ok {api : ApiVersion} {signed : Option (Except SigningError String)}
    {signature : String} (h : Run (resolveSignature api signed).run tr (.ok signature)) :
    ∀ s, signed = some s → s = .ok signature := by
  rintro (err | sig) rfl
  · simp [resolveSignature, run_pure] at h
  · simp only [resolveSignature, run_exceptPure, Except.ok.injEq] at h
    rw [h.2]

theorem run_resolveSignature {api : ApiVersion} {signed : Option (Except SigningError String)}
    {signature : String} (h : signed = some (.ok signature)) :
    Run (resolveSignature api signed).run [] (.ok signature) := by
  subst h
  exact run_exceptPure.2 ⟨rfl, rfl⟩

theorem run_answerDecrypt {signature : String}
    (h : Run (q.answerDecrypt e pt ty signature).run tr (.ok resp)) :
    resp.answer = some ⟨.decrypted (toBeBytes pt).1, signature, ty.toI32⟩ := by
  unfold Ask.answerDecrypt at h
  simp only at h
  split at h
  · obtain ⟨-, hr⟩ := run_exceptPure.1 h
    cases hr
    simp [Body.answer]
  · obtain ⟨x, tr', -, h'⟩ := run_attemptBind.1 h
    obtain ⟨-, hr⟩ := run_exceptPure.1 h'
    cases hr
    simp [Body.answer]

theorem run_answerSeal {sealed : SealedOutput} {signature : String}
    (h : Run (q.answerSeal e sealed ty signature).run tr (.ok resp)) :
    resp.answer = some ⟨.sealed sealed, signature, ty.toI32⟩ := by
  unfold Ask.answerSeal at h
  split at h
  · obtain ⟨-, hr⟩ := run_exceptPure.1 h
    cases hr
    simp [Body.answer]
  · obtain ⟨x, tr', -, h'⟩ := run_attemptBind.1 h
    obtain ⟨-, hr⟩ := run_exceptPure.1 h'
    cases hr
    simp [Body.answer]

/-- A decrypt answers with the value's bytes, signed as the request's own statement. -/
theorem finish_decrypt (hs : e.sealTo = none)
    (h : Run (q.finish crates signer e (pt, ty)).run tr (.ok resp)) :
    ∃ signature, resp.answer = some ⟨.decrypted (toBeBytes pt).1, signature, ty.toI32⟩
      ∧ ∀ svc, signer = some svc →
        signDecrypt crates.keccak256 svc pt ty.toI32 q.hostChainId e.handle.asStr
          (parseVFormat q.headers) = .ok signature := by
  simp only [Ask.finish, hs] at h
  rcases run_exceptBind.1 h with ⟨_, he, -⟩ | ⟨tr₁, tr₂, signature, rfl, h₁, h₂⟩
  · simp at he
  refine ⟨signature, run_answerDecrypt h₂, ?_⟩
  rintro svc rfl
  exact resolveSignature_ok h₁ _ rfl

/-- The output of `sealToUser`: a box of the plaintext under a fresh key and nonce. -/
def SealedFrom (box : CryptoBox) (pk plaintext : List UInt8) (out : SealedOutput) : Prop :=
  ∃ (kp : KeyPair) (nonce : FixedBytes 24), box plaintext nonce pk kp.secretKey = .ok out.data
    ∧ out.publicKey = kp.publicKey.1 ∧ out.nonce = nonce.1

theorem sealToUser_ok {box : CryptoBox} {pk plaintext : List UInt8} {out : SealedOutput}
    (h : Run (sealToUser box pk plaintext).run tr (.ok out)) :
    SealedFrom box pk plaintext out := by
  unfold sealToUser at h
  split at h
  · simp [run_pure] at h
  split at h
  · simp [run_pure] at h
  obtain ⟨kp, tr₁, -, h₁⟩ := run_attemptBind.1 h
  obtain ⟨nonce, tr₂, -, h₂⟩ := run_attemptBind.1 h₁
  split at h₂
  · simp [run_pure] at h₂
  · rename_i data hbox
    obtain ⟨-, hr⟩ := run_exceptPure.1 h₂
    cases hr
    exact ⟨kp, nonce, hbox, rfl, rfl⟩

/-- `pk` is the key a sealing is for: the ACP's `sealingKey` decoded, of 32 bytes that are not all
zero. -/
structure RecipientOf (acp : AcpData) (pk : List UInt8) : Prop where
  decoded : Bytes.hexDecode (trimStart0x acp.sealingKey.toList) = .ok pk
  length : pk.length = 32
  nonzero : ∃ b ∈ pk, b ≠ 0

theorem recipientKey_ok {api : ApiVersion} {acp : AcpData} {pk : List UInt8}
    (h : Run (recipientKey api acp).run tr (.ok pk)) :
    Bytes.hexDecode (trimStart0x acp.sealingKey.toList) = .ok pk := by
  unfold recipientKey at h
  split at h
  next key hk =>
    obtain ⟨-, hr⟩ := run_exceptPure.1 h
    cases hr
    exact hk
  next => simp [run_pure] at h

theorem sealToUser_key {box : CryptoBox} {pk plaintext : List UInt8} {out : SealedOutput}
    (h : Run (sealToUser box pk plaintext).run tr (.ok out)) :
    pk.length = 32 ∧ ∃ b ∈ pk, b ≠ 0 := by
  unfold sealToUser at h
  split at h
  · simp [run_pure] at h
  next hl =>
    split at h
    · simp [run_pure] at h
    next hz =>
      refine ⟨not_not.1 hl, ?_⟩
      simpa using hz

/-- A sealoutput answers with a box of the value's encoding to the ACP's key, signed as the
request's own statement. -/
theorem finish_seal {acp : AcpData} (hs : e.sealTo = some acp)
    (h : Run (q.finish crates signer e (pt, ty)).run tr (.ok resp)) :
    ∃ pk sealed signature, RecipientOf acp pk
      ∧ SealedFrom crates.cryptoBox pk (ty.encode pt) sealed
      ∧ resp.answer = some ⟨.sealed sealed, signature, ty.toI32⟩
      ∧ ∀ svc, signer = some svc →
        signSealoutput crates.keccak256 svc sealed.data sealed.publicKey sealed.nonce ty.toI32
          q.hostChainId e.handle.asStr (parseVFormat q.headers) = .ok signature := by
  simp only [Ask.finish, hs] at h
  rcases run_exceptBind.1 h with ⟨_, he, -⟩ | ⟨tr₁, tr₂, pk, rfl, h₁, h₂⟩
  · simp at he
  rcases run_exceptBind.1 h₂ with ⟨_, he, -⟩ | ⟨tr₃, tr₄, sealed, rfl, h₃, h₄⟩
  · simp at he
  rcases run_exceptBind.1 h₄ with ⟨_, he, -⟩ | ⟨tr₅, tr₆, signature, rfl, h₅, h₆⟩
  · simp at he
  obtain ⟨tr₇, tr₈, r, -, h₇, h₈⟩ := run_liftBind.1 h₃
  obtain ⟨-, hr⟩ := run_ofExcept.1 h₈
  have hseal : r = .ok sealed := by
    rcases r with err | out
    · simp [Except.mapError] at hr
    · simp only [Except.mapError, Except.ok.injEq] at hr
      rw [hr]
  subst hseal
  obtain ⟨hl, hz⟩ := sealToUser_key h₇
  refine ⟨pk, sealed, signature, ⟨recipientKey_ok h₁, hl, hz⟩, sealToUser_ok h₇,
    run_answerSeal h₆, ?_⟩
  rintro svc rfl
  exact resolveSignature_ok h₅ _ rfl

/-- A request that finishes is answered with a result. -/
theorem finish_answer {out : U256 × EncryptionType}
    (h : Run (q.finish crates signer e out).run tr (.ok resp)) : ∃ a, resp.answer = some a := by
  rcases hs : e.sealTo with _ | acp
  · obtain ⟨signature, hans, -⟩ := finish_decrypt hs h
    exact ⟨_, hans⟩
  · obtain ⟨pk, sealed, signature, -, -, hans, -⟩ := finish_seal hs h
    exact ⟨_, hans⟩

section

variable {P : Response → Prop}
  (herr : ∀ status code, (status, code) ∈ apiErrors → P (q.api.err status code))

include herr

theorem stops_enter : StopsWith P q.enter := by
  refine (stops_attempt _).bind fun id => StopsWith.bind ?_ fun handle => StopsWith.bind ?_
    fun now => StopsWith.bind ?_ fun s => stops_pure _
  · unfold parseHandle
    split
    · exact stops_pure _
    · exact stops_throw (herr _ _ (by decide))
  · unfold Ask.clock
    split
    · exact stops_pure _
    · exact stops_attempt _
  · unfold Ask.recipient
    split
    · exact stops_pure _
    · refine StopsWith.bind ?_ fun acp => stops_pure _
      unfold requireAcp
      split
      · exact stops_pure _
      · exact stops_throw (herr _ _ (by decide))

theorem stops_finish (out : U256 × EncryptionType) :
    StopsWith P (q.finish crates signer e out) := by
  have hsign : ∀ s, StopsWith P (resolveSignature q.api s) := by
    rintro (_ | (_ | _))
    · exact stops_pure _
    · exact stops_throw (herr _ _ (by decide))
    · exact stops_pure _
  obtain ⟨pt, ty⟩ := out
  simp only [Ask.finish]
  split
  · refine (hsign _).bind fun signature => ?_
    unfold Ask.answerDecrypt
    split
    · exact stops_pure _
    · exact (stops_attempt _).bind fun _ => stops_pure _
  · refine StopsWith.bind ?_ fun pk => StopsWith.bind ?_ fun sealed =>
      (hsign _).bind fun signature => ?_
    · unfold recipientKey
      split
      · exact stops_pure _
      · exact stops_throw (herr _ _ (by decide))
    · refine (stops_lift _).bind fun r => stops_ofExcept fun resp hr => ?_
      rcases r with err | out
      · cases hr
        cases err <;> exact herr _ _ (by decide)
      · cases hr
    · unfold Ask.answerSeal
      split
      · exact stops_pure _
      · exact (stops_attempt _).bind fun _ => stops_pure _

end

/-- A response that finishes a request has no outcome attached to it. -/
theorem finish_outcome {out : U256 × EncryptionType}
    (h : Run (q.finish crates signer e out).run tr (.ok resp)) : resp.outcome = none := by
  have hpure : ∀ b, ReturnsWith (fun r => r.outcome = none)
      (pure (.okJson b) : Attempt Response Response) := fun b => returns_pure rfl
  have hfinish : ReturnsWith (fun r => r.outcome = none) (q.finish crates signer e out) := by
    obtain ⟨pt, ty⟩ := out
    simp only [Ask.finish]
    split
    · refine .bind fun signature => ?_
      unfold Ask.answerDecrypt
      split
      · exact hpure _
      · exact .bind fun _ => hpure _
    · refine .bind fun pk => .bind fun sealed => .bind fun signature => ?_
      unfold Ask.answerSeal
      split
      · exact hpure _
      · exact .bind fun _ => hpure _
  exact hfinish _ _ h

end

/-- A request to one of the four handlers, with whatever body. -/
def Request.IsSubmission : Request → Prop
  | .v2DecryptStatus _ => False
  | .v2SealoutputStatus _ => False
  | _ => True

/-- A request that asks for nothing to be decrypted is one whose body is refused, or a poll, which
has no result and no outcome of its own. -/
theorem serve_of_ask_none {st : AppState} {req : Request} (hq : req.ask = none) {tr : Trace sig}
    {resp : Response} (h : Run (serve st req) tr resp) :
    (∃ api rejection, resp = ApiVersion.reject api rejection)
      ∨ (¬ req.IsSubmission ∧ resp.answer = none ∧ resp.outcome = none) := by
  rcases unasked_cases hq with ⟨api, rejection, hserve⟩ | ⟨id, rfl⟩ | ⟨id, rfl⟩
  · rw [hserve] at h
    exact .inl ⟨api, rejection, (run_pure.1 h).2⟩
  · refine .inr ⟨False.elim, ?_⟩
    obtain ⟨_ | r, tr', -, h'⟩ := run_performBind.1 h
    · rw [(run_pure.1 h').2]
      exact ⟨rfl, rfl⟩
    · rw [(run_pure.1 h').2]
      exact ⟨rfl, rfl⟩
  · refine .inr ⟨False.elim, ?_⟩
    obtain ⟨_ | r, tr', -, h'⟩ := run_performBind.1 h
    · rw [(run_pure.1 h').2]
      exact ⟨rfl, rfl⟩
    · rw [(run_pure.1 h').2]
      exact ⟨rfl, rfl⟩

theorem answer_of_ask_none {st : AppState} {req : Request} (hq : req.ask = none) {tr : Trace sig}
    {resp : Response} (h : Run (serve st req) tr resp) : resp.answer = none := by
  rcases serve_of_ask_none hq h with ⟨api, rejection, rfl⟩ | ⟨-, hans, -⟩
  · exact answer_err _ _ _
  · exact hans

/-- A request that reaches its end has gone through `fetch_decrypt`; the others are stopped early,
with a response of which `P` holds. -/
theorem serve_ends {st : AppState} {req : Request} {q : Ask} (hq : req.ask = some q)
    {P : Response → Prop}
    (herr : ∀ status code, (status, code) ∈ apiErrors → P (q.api.err status code))
    (hretry : ∀ reason, P (q.api.retryable reason)) (hmis : P (q.api.err 502 "commitment_mismatch"))
    {tr : Trace sig} {resp : Response} (h : Run (serve st req) tr resp) :
    P resp ∨ ∃ e trE trF trZ out, tr = trE ++ (trF ++ trZ)
      ∧ Run q.enter.run trE (.ok e)
      ∧ Run (fetchDecrypt st e.handle q.hostChainId q.acp q.api).run trF (.ok out)
      ∧ Run (q.finish st.crates st.signer e out).run trZ (.ok resp) := by
  rcases (run_serve hq).1 h with h | ⟨trE, tr', e, rfl, hE, h | ⟨trF, trZ, out, rfl, hF, h | h⟩⟩
  · exact .inl (stops_enter herr _ _ h)
  · exact .inl (stops_fetchDecrypt herr (fun reason _ => hretry reason) hmis (hretry _) _ _ h)
  · exact .inr ⟨e, trE, trF, trZ, out, rfl, hE, hF, h⟩
  · exact .inl (stops_finish herr _ _ _ h)

/-- A response with a result ends a run through `fetch_decrypt`. -/
theorem serve_answer {st : AppState} {req : Request} {tr : Trace sig} {resp : Response}
    {a : Answer} (h : Run (serve st req) tr resp) (ha : resp.answer = some a) :
    ∃ q e trE trF trZ out, req.ask = some q ∧ tr = trE ++ (trF ++ trZ)
      ∧ Run q.enter.run trE (.ok e)
      ∧ Run (fetchDecrypt st e.handle q.hostChainId q.acp q.api).run trF (.ok out)
      ∧ Run (q.finish st.crates st.signer e out).run trZ (.ok resp) := by
  rcases hq : req.ask with _ | q
  · rw [answer_of_ask_none hq h] at ha
    cases ha
  rcases serve_ends (P := fun r => r.answer = none) hq (fun _ _ _ => answer_err _ _ _)
    (answer_retryable _) (answer_err _ _ _) h with hnone | ⟨e, trE, trF, trZ, out, hrun⟩
  · rw [hnone] at ha
    cases ha
  · exact ⟨q, e, trE, trF, trZ, out, rfl, hrun⟩

end Teecryptor
