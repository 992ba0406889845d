import Teecryptor.Proofs.WarnOnly
import Teecryptor.Lib.World

/-!
# What an API version does to a request

The version a handler is written for decides how a failure looks on the wire, and nothing else:
up to that, the shared path is one program for both versions (`encoded_fetchDecrypt`), and so is
what a request does with the value it gets (`encoded_settle`).
-/

namespace Teecryptor

open Interact Interact.Prog Rust

/-- Why a request fails, before a version encodes it. -/
inductive Failure
  | terminal (status : ℕ) (code : String) (h : status ≠ 200 ∧ status ≠ 204)
  | retry (reason : RetryReason)

def Failure.response (api : ApiVersion) : Failure → Response
  | .terminal status code _ => api.err status code
  | .retry reason => api.retryable reason

/-- What answers an operation: the part of the service it belongs to, with the randomness of a
sealing in the last. The request id, the time and the v2 caches are each request's own. -/
def Op.service : Op → Option Part
  | .newUuid => none
  | .utcNow => none
  | .v2CachePut _ _ => none
  | .v2CacheGet _ => none
  | .v2SealCachePut _ _ => none
  | .v2SealCacheGet _ => none
  | .panic _ => none
  | o => some o.part

theorem service_of_part {p : Part} (hp : p ≠ .rest) {o : Op} (ho : o.part = p) :
    o.service = some p := by
  cases o
  all_goals first | exact congrArg some ho | exact absurd ho.symm hp

/-! ## Failures -/

/-- The response of each version encodes the same failure. -/
def Encodes (r : ApiVersion → Response) : Prop := ∃ f : Failure, ∀ api, r api = f.response api

theorem encodes_err {status : ℕ} (code : String) (h : status ≠ 200 ∧ status ≠ 204) :
    Encodes fun api => api.err status code := ⟨.terminal status code h, fun _ => rfl⟩

theorem encodes_retryable (reason : RetryReason) : Encodes fun api => api.retryable reason :=
  ⟨.retry reason, fun _ => rfl⟩

theorem encodes_acpResponse (presented : Bool) (e : AcpError) :
    Encodes fun api => acpResponse api presented e := by
  cases e
  case denied =>
    cases presented
    · exact encodes_err _ (show 403 ≠ 200 ∧ 403 ≠ 204 by simp)
    · exact encodes_err "acp_denied" (by simp)
  all_goals exact encodes_err _ (by simp)

theorem encodes_commitmentResponse (e : CommitmentError) :
    Encodes fun api => commitmentResponse api e := by
  cases e
  case notFound => exact encodes_retryable _
  all_goals exact encodes_err _ (by simp)

theorem encodes_ctFetchResponse (e : CtFetchError) :
    Encodes fun api => ctFetchResponse api e := by
  cases e
  case notReady => exact encodes_retryable _
  all_goals exact encodes_err _ (by simp)

theorem encodes_sealResponse (e : SealError) : Encodes fun api => sealResponse api e := by
  cases e <;> exact encodes_err _ (by simp)

theorem encodes_reject (rejection : JsonRejection) : Encodes fun api => api.reject rejection := by
  cases rejection <;> exact encodes_err _ (by simp [JsonRejection.status])

/-! ## Programs -/

section Rules

variable {α β : Type}

theorem determined_of_only {p : Task α} {part : Part} (hpart : part ≠ .rest) (hl : Linear p)
    (ho : Always (Only (Of part)) p) : Determined Op.service p :=
  hl.determined (ho.mono fun _ h => h.mono fun _ he => ⟨part, service_of_part hpart he⟩)

/-- Both versions are one determined program, up to how they encode its failures. -/
def Encoded (x : ApiVersion → Attempt Response α) : Prop :=
  ∃ y : Attempt Failure α, Determined Op.service y.run
    ∧ ∀ api, x api = ExceptT.adapt (Failure.response api) y

theorem encoded_pure (a : α) : Encoded fun _ => (pure a : Attempt Response α) :=
  ⟨pure a, .pure _, fun _ => rfl⟩

theorem encoded_throw {r : ApiVersion → Response} (h : Encodes r) :
    Encoded fun api => (throw (r api) : Attempt Response α) := by
  obtain ⟨f, hf⟩ := h
  refine ⟨throw f, .pure _, fun api => ?_⟩
  simp only [hf api]
  rfl

theorem encoded_lift {p : Task α} (hp : Determined Op.service p) :
    Encoded fun _ => (ExceptT.lift p : Attempt Response α) := by
  refine ⟨ExceptT.lift p, ?_, fun api => ?_⟩
  · rw [ExceptT.run_lift]
    exact hp.bind fun a => .pure _
  · apply ExceptT.ext
    simp only [run_adapt_eq, ExceptT.run_lift, map_eq, bind_bind]
    rfl

theorem encoded_attempt {o : Op} {p : Part} (ho : o.service = some p) :
    Encoded fun _ => (attempt o : Attempt Response o.Ans) :=
  encoded_lift (Determined.call ho)

theorem determined_perform {o : Op} {p : Part} (ho : o.service = some p) :
    Determined Op.service (perform o) := Determined.call ho

theorem Encoded.bind {x : ApiVersion → Attempt Response α} {f : ApiVersion → α → Attempt Response β}
    (hx : Encoded x) (hf : ∀ a, Encoded fun api => f api a) :
    Encoded fun api => x api >>= f api := by
  obtain ⟨y, hy, hxy⟩ := hx
  choose g hg hfg using hf
  refine ⟨y >>= g, ?_, fun api => ?_⟩
  · rw [ExceptT.run_bind]
    refine hy.bind fun r => ?_
    rcases r with e | a
    · exact .pure _
    · exact hg a
  · have hfa : f api = fun a => ExceptT.adapt (Failure.response api) (g a) :=
      funext fun a => hfg a api
    simp only [adapt_bind, hxy api, hfa]

theorem encoded_refuse (warnOnly : Bool) (reason : String) (allowed : α)
    {r : ApiVersion → Response} (h : Encodes r) :
    Encoded fun api => refuse warnOnly reason allowed (r api) := by
  have hlog : ∀ mode, (Op.log (commitmentLog reason mode)).service = some .commitment :=
    fun mode => service_of_part (by decide) (of_commitmentLog reason mode)
  unfold refuse
  split
  · exact (encoded_attempt (hlog _)).bind fun _ => encoded_pure _
  · exact (encoded_attempt (hlog _)).bind fun _ => encoded_throw h

/-- A permit dropped however `x` ends. -/
theorem Encoded.finally {x : ApiVersion → Attempt Response α} (hx : Encoded x) {o : Op} {p : Part}
    (ho : o.service = some p) :
    Encoded fun api => (do
      let out ← ExceptT.lift (x api).run
      let _ ← attempt o
      Attempt.ofExcept out : Attempt Response α) := by
  obtain ⟨y, hy, hxy⟩ := hx
  refine ⟨do
    let out ← ExceptT.lift y.run
    let _ ← attempt o
    Attempt.ofExcept out, ?_, fun api => ?_⟩
  · rw [ExceptT.run_bind, ExceptT.run_lift]
    refine Determined.bind (hy.bind fun a => .pure _) fun r => ?_
    rcases r with e | out
    · exact .pure _
    · refine Determined.bind (Determined.bind (Determined.call ho) fun _ => .pure _) fun r => ?_
      rcases r with e | u
      · exact .pure _
      · exact .pure _
  · apply ExceptT.ext
    simp only [hxy api, ExceptT.run_bind, run_adapt_eq, ExceptT.run_lift, map_eq, bind_eq,
      bind_bind, Prog.bind]
    congr 1

end Rules

section

variable (st : AppState) (handle : Handle) (hostChainId : UInt64) (acp : Option AcpData)

/-! ## The gates -/

theorem encoded_acpGate : ∃ y : Task (Option Failure), Determined Op.service y
    ∧ (∀ api, acpGate st handle hostChainId acp api
      = y.bind fun f => .pure (f.map (Failure.response api)))
    ∧ Always (Only (Of .acl)) y := by
  rcases hv : st.acpVerifier with _ | cfg
  · refine ⟨.pure none, .pure _, fun api => ?_, (mixes_only _).pure _⟩
    simp only [acpGate, hv]
    rfl
  · choose f hf using encodes_acpResponse acp.isSome
    refine ⟨(verifyAcp st.crates cfg handle.u256 hostChainId acp).run.bind
      (Except.rec (fun e => .pure (some (f e))) fun _ => .pure none), ?_, fun api => ?_, ?_⟩
    · refine Determined.bind (determined_of_only (by decide) (linear_verifyAcp _ _ _ _ _)
        (only_verifyAcp _ _ _)) fun r => ?_
      rcases r with e | u
      · exact .pure _
      · exact .pure _
    · simp only [acpGate, hv, enforceAcp, bind_eq, bind_bind]
      congr 1
      funext r
      rcases r with e | u
      · show Prog.pure _ = Prog.pure _
        rw [Option.map_some, ← hf e api]
      · rfl
    · refine (mixes_only _).bind (only_verifyAcp _ _ _) fun r => ?_
      rcases r with e | u
      · exact (mixes_only _).pure _
      · exact (mixes_only _).pure _

theorem linear_refreshCommitment (cfg : CommitmentConfig) (h : U256) :
    Linear (refreshCommitment cfg h hostChainId).run := by
  refine (linear_attempt _).exceptBind fun x => ?_
  rcases x with commit | e | _
  · simp only
    split_ifs
    · exact (linear_attempt _).exceptBind fun x => .pure _
    · exact (linear_attempt _).exceptBind fun x => .pure _
  · exact .pure _
  · exact .pure _

theorem determined_refreshCommitment (cfg : CommitmentConfig) (h : U256) :
    Determined Op.service (refreshCommitment cfg h hostChainId).run :=
  determined_of_only (by decide) (linear_refreshCommitment hostChainId cfg h)
    (only_refreshCommitment cfg h)

theorem determined_fetchCommitment (cfg : CommitmentConfig) (h : U256) :
    Determined Op.service (fetchCommitment cfg h hostChainId).run := by
  refine determined_of_only (by decide) ?_ (only_fetchCommitment cfg h)
  refine (linear_attempt _).exceptBind fun x => ?_
  rcases x with _ | c
  · exact (linear_refreshCommitment hostChainId cfg h).exceptBind fun c => .pure _
  · exact .pure _

theorem encoded_commitmentGate :
    Encoded fun api => commitmentGate st handle hostChainId api := by
  unfold commitmentGate
  split
  · refine (encoded_lift (determined_fetchCommitment _ _ _)).bind fun r => ?_
    rcases r with e | f
    · exact encoded_refuse _ _ _ (encodes_commitmentResponse e)
    · exact encoded_pure _
  · exact encoded_pure _

theorem encoded_gates : Encoded fun api => gates st handle hostChainId acp api := by
  unfold gates
  split
  swap
  · exact encoded_pure _
  obtain ⟨a, ha, hea, hoa⟩ := encoded_acpGate st handle hostChainId acp
  obtain ⟨c, hc, hec⟩ := encoded_commitmentGate st handle hostChainId
  -- the operations of the commitment gate are those it has in either version
  have hoc : Always (Only (Of .commitment)) c.run := by
    intro tr p' hs
    have hx : Always (Only (Of .commitment)) (commitmentGate st handle hostChainId .v1).run :=
      only_commitmentGate
    have hv1 : commitmentGate st handle hostChainId .v1
        = ExceptT.adapt (Failure.response .v1) c := hec .v1
    rw [hv1, run_adapt_eq] at hx
    exact hx tr _ (hs.bind _)
  have hjoin : Determined Op.service (Prog.join a c.run) := by
    refine Determined.join (fun k => k = .acl) ha hc ?_ ?_
    · refine hoa.mono fun _ h => h.mono fun e he k hk => ?_
      rw [service_of_part (by decide) he] at hk
      exact (Option.some.inj hk).symm
    · refine hoc.mono fun _ h => h.mono fun e he k hk => ?_
      rw [service_of_part (by decide) he] at hk
      cases hk
      decide
  refine ⟨do
    let (acpResp, commitRes) ← ExceptT.lift (Prog.join a c.run)
    match acpResp with
    | some f => throw f
    | none => Attempt.ofExcept commitRes, ?_, fun api => ?_⟩
  · rw [ExceptT.run_bind, ExceptT.run_lift]
    refine Determined.bind (hjoin.bind fun _ => .pure _) fun r => ?_
    rcases r with e | ⟨_ | f, c⟩
    · exact .pure _
    · exact .pure _
    · exact .pure _
  · have hc' : (commitmentGate st handle hostChainId api).run
        = c.run.bind fun r => .pure (r.mapError (Failure.response api)) := by
      have hapi : commitmentGate st handle hostChainId api
          = ExceptT.adapt (Failure.response api) c := hec api
      rw [hapi, run_adapt_eq]
    apply ExceptT.ext
    simp only [hea api, hc', join_map, ExceptT.run_bind, run_adapt_eq, ExceptT.run_lift, map_eq,
      bind_eq, bind_bind, Prog.bind]
    congr 1
    funext r
    obtain ⟨_ | f, c⟩ := r
    · rfl
    · rfl

/-! ## The row -/

theorem encoded_judgeCommitment (warnOnly : Bool) (actual : FixedBytes 32)
    (expected : CommitHash) :
    Encoded fun api => judgeCommitment api warnOnly actual expected := by
  unfold judgeCommitment
  split
  · exact encoded_pure _
  · exact encoded_refuse _ _ _ (encodes_err _ (by simp))

theorem encoded_integrityGate (expected : Option FetchedCommitment) (data : List UInt8) :
    Encoded fun api => integrityGate st handle hostChainId api expected data := by
  have hlog : ∀ reason mode, (Op.log (commitmentLog reason mode)).service = some .commitment :=
    fun reason mode => service_of_part (by decide) (of_commitmentLog reason mode)
  rcases expected with _ | fetched
  · exact encoded_pure _
  simp only [integrityGate]
  rcases st.commitmentVerifier with _ | cfg
  · exact encoded_judgeCommitment _ _ _
  simp only [enforceCommitmentIntegrity]
  split
  · refine (encoded_lift (determined_refreshCommitment _ _ _)).bind fun r => ?_
    rcases r with (_ | m | d | m) | c
    · exact encoded_refuse _ _ _ (encodes_retryable _)
    · exact (encoded_attempt (hlog _ _)).bind fun _ => encoded_judgeCommitment _ _ _
    · exact (encoded_attempt (hlog _ _)).bind fun _ => encoded_judgeCommitment _ _ _
    · exact (encoded_attempt (hlog _ _)).bind fun _ => encoded_judgeCommitment _ _ _
    · simp only
      split
      · exact encoded_attempt (hlog _ _)
      · exact encoded_judgeCommitment _ _ _
  · exact encoded_judgeCommitment _ _ _

theorem encoded_decryptServed (ct : FheCiphertext) :
    Encoded fun api => decryptServed st handle api ct := by
  simp only [decryptServed_eq]
  refine Encoded.bind ?_ fun ty => Encoded.bind ?_ fun pt => encoded_pure _
  · unfold checkMetadata
    simp only
    split
    · exact encoded_throw (encodes_err _ (by simp))
    split
    · exact encoded_throw (encodes_err _ (by simp))
    split
    · exact (encoded_attempt rfl).bind fun _ => encoded_throw (encodes_err _ (by simp))
    split
    · exact (encoded_attempt rfl).bind fun _ => encoded_throw (encodes_err _ (by simp))
    · exact encoded_pure _
  · have hrun : Determined Op.service (runGated (decryptClosure st ct ty)) :=
      (determined_perform rfl).bind fun _ => (determined_perform rfl).bind fun _ =>
        (determined_perform rfl).bind fun _ => .pure _
    refine (encoded_lift hrun).bind fun r => ?_
    rcases r with p | (e | pt)
    · exact encoded_throw (encodes_err _ (by simp))
    · exact encoded_throw (encodes_err _ (by simp))
    · exact encoded_pure _

theorem encoded_openRow (expected : Option FetchedCommitment) :
    Encoded fun api => openRow st handle hostChainId api expected := by
  simp only [openRow_eq]
  refine Encoded.bind ?_ fun ct => Encoded.bind ?_ fun _ =>
    (encoded_integrityGate _ _ _ _ _).bind fun _ => encoded_decryptServed _ _ _
  · have hfetch : Determined Op.service (fetch st.crates.parseGetCtResponse handle.asStr) :=
      (determined_perform rfl).bind fun _ => .pure _
    refine (encoded_lift hfetch).bind fun row => ?_
    rcases row with e | ct
    · exact encoded_throw (encodes_ctFetchResponse e)
    · exact encoded_pure _
  · unfold checkForm
    split
    · exact encoded_throw (encodes_err _ (by simp))
    split
    · exact encoded_throw (encodes_err _ (by simp))
    · exact encoded_pure _

theorem encoded_fetchDecrypt : Encoded fun api => fetchDecrypt st handle hostChainId acp api := by
  simp only [fetchDecrypt_eq, admitted_eq]
  refine (encoded_attempt rfl).bind fun permit => ?_
  split
  · exact ((encoded_gates _ _ _ _).bind fun _ => encoded_openRow _ _ _ _).finally rfl
  · exact encoded_throw (encodes_retryable _)

end

/-! ## What is done with the value -/

section

variable (crates : Crates) (signer : Option Signer) (q : Ask) (api : ApiVersion)

/-- The answer to a request: its value, sealed if that is asked for, and the signature. -/
def settle (handle : Handle) (sealTo : Option AcpData) :
    U256 × EncryptionType → Attempt Response Answer
  | (pt, ty) =>
    match sealTo with
    | none => do
      let signature ← resolveSignature api <| signer.map fun svc =>
        signDecrypt crates.keccak256 svc pt ty.toI32 q.hostChainId handle.asStr
          (parseVFormat q.headers)
      return ⟨.decrypted (toBeBytes pt).1, signature, ty.toI32⟩
    | some acp => do
      let recipientPk ← recipientKey api acp
      let sealed ← sealFor crates api recipientPk (ty.encode pt)
      let signature ← resolveSignature api <| signer.map fun svc =>
        signSealoutput crates.keccak256 svc sealed.data sealed.publicKey sealed.nonce ty.toI32
          q.hostChainId handle.asStr (parseVFormat q.headers)
      return ⟨.sealed sealed, signature, ty.toI32⟩

/-- What a request asks for, from its handle on. -/
def requested (st : AppState) (handle : Handle) : Attempt Response Answer := do
  let sealTo ← { q with api }.recipient
  let out ← fetchDecrypt st handle q.hostChainId q.acp api
  settle st.crates st.signer q api handle sealTo out

theorem determined_sealToUser (box : CryptoBox) (pk plaintext : List UInt8) :
    Determined Op.service (sealToUser box pk plaintext).run :=
  (linear_sealToUser box pk plaintext).determined
    (only_sealToUser (fun _ => ⟨.rest, rfl⟩) (fun _ => ⟨.rest, rfl⟩) _ _ _)

theorem encoded_settle (handle : Handle) (sealTo : Option AcpData)
    (out : U256 × EncryptionType) :
    Encoded fun api => settle crates signer q api handle sealTo out := by
  have hsign : ∀ s, Encoded fun api => resolveSignature api s := by
    rintro (_ | (_ | _))
    · exact encoded_pure _
    · exact encoded_throw (encodes_err _ (by simp))
    · exact encoded_pure _
  obtain ⟨pt, ty⟩ := out
  simp only [settle]
  split
  · exact (hsign _).bind fun _ => encoded_pure _
  · refine Encoded.bind ?_ fun pk => Encoded.bind ?_ fun sealed =>
      (hsign _).bind fun _ => encoded_pure _
    · unfold recipientKey
      split
      · exact encoded_pure _
      · exact encoded_throw (encodes_err _ (by simp))
    · refine (encoded_lift (determined_sealToUser _ _ _)).bind fun r => ?_
      rcases r with e | out
      · exact encoded_throw (encodes_sealResponse e)
      · exact encoded_pure _

theorem encoded_requested (st : AppState) (handle : Handle) :
    Encoded fun api => requested q api st handle := by
  refine Encoded.bind ?_ fun sealTo => (encoded_fetchDecrypt _ _ _ _).bind fun out =>
    encoded_settle _ _ _ _ _ _
  simp only [Ask.recipient]
  split
  · exact encoded_pure _
  · refine Encoded.bind ?_ fun acp => encoded_pure _
    unfold requireAcp
    split
    · exact encoded_pure _
    · exact encoded_throw (encodes_err _ (by simp))

end

end Teecryptor
