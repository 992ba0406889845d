import Teecryptor.Proofs.FetchDecrypt

/-!
# Which events each part of a request can have

Every operation belongs to one part of the service, and each gate only performs the operations of
its own, in every partial run. So what one gate did can be read off a request's trace whatever the
interleaving.
-/

namespace Teecryptor

open Interact Interact.Prog Rust

/-- The parts of a request: its two gates, the fetch, the served row's decryption with the checks
of its metadata, the admission, and what is outside `fetch_decrypt`. -/
inductive Part
  | acl
  | commitment
  | ctServer
  | decryption
  | admission
  | rest
  deriving DecidableEq, Repr

def Op.part : Op → Part
  | .isAllowedWithPermission _ _ _ => .acl
  | .isPubliclyAllowed _ _ => .acl
  | .getCommitment _ _ => .commitment
  | .getFromCache _ => .commitment
  | .putInCache _ _ => .commitment
  | .evictFromCache _ => .commitment
  | .log line => if line.gate = "commitment" then .commitment else .decryption
  | .getStoredCt _ => .ctServer
  | .acquireDecrypt => .decryption
  | .spawnBlocking => .decryption
  | .joinBlocking _ => .decryption
  | .tryAdmit => .admission
  | .dropAdmit => .admission
  | _ => .rest

/-- The event is one of the part `p`. -/
def Of (p : Part) (e : Event sig) : Prop := e.1.part = p

instance (p : Part) : DecidablePred (Of p) := fun e => inferInstanceAs (Decidable (e.1.part = p))

section Rules

variable {ε α : Type} {P : Trace sig → Prop}

theorem always_attempt (hP : Mixes P) {o : Op} (ho : ∀ x, P [⟨o, x⟩]) :
    Always P (attempt o : Attempt ε o.Ans).run := hP.lift (hP.call ho)

theorem always_exceptPure (hP : Mixes P) (a : α) : Always P (pure a : Attempt ε α).run :=
  hP.pure _

theorem always_throw (hP : Mixes P) (e : ε) : Always P (throw e : Attempt ε α).run :=
  hP.pure _

theorem always_ofExcept (hP : Mixes P) (r : Except ε α) : Always P (Attempt.ofExcept r).run :=
  hP.pure _

theorem always_ofExec (hP : Mixes P) (e : Exec ε α) : Always P (Attempt.ofExec e).run := by
  rcases e with (x | p) | a
  · exact always_throw hP x
  · exact hP.exceptBind (always_attempt hP fun x => x.elim) fun x => x.elim
  · exact always_exceptPure hP a

theorem only_perform {Q : Event sig → Prop} {o : Op} (ho : ∀ x, Q ⟨o, x⟩) :
    Always (Only Q) (perform o) :=
  (mixes_only Q).call fun x => only_singleton.2 (ho x)

theorem only_attempt {Q : Event sig → Prop} {o : Op} (ho : ∀ x, Q ⟨o, x⟩) :
    Always (Only Q) (attempt o : Attempt ε o.Ans).run :=
  always_attempt (mixes_only Q) fun x => only_singleton.2 (ho x)

end Rules

variable {st : AppState} {handle : Handle} {hostChainId : UInt64} {acp : Option AcpData}
  {api : ApiVersion}

/-! ## The ACL -/

theorem only_verifyAcp (crates : Crates) (cfg : ChainsVerifierConfig) (h : U256) :
    Always (Only (Of .acl)) (verifyAcp crates cfg h hostChainId acp).run := by
  have hO := mixes_only (Of .acl)
  have hcheck : ∀ (cfg : ChainConfig) (x : RpcResult Bool),
      Always (Only (Of .acl)) (checkAllowed cfg x).run := by
    rintro cfg ((_ | _) | e | _)
    · exact always_throw hO _
    · exact always_exceptPure hO _
    · exact always_throw hO _
    · exact always_throw hO _
  rcases acp with _ | acp
  · simp only [verifyAcp, verifyPubliclyAllowed]
    split
    · exact always_throw hO _
    · exact hO.exceptBind (only_attempt fun x => rfl) fun x => hcheck _ x
  · simp only [verifyAcp, verifyViaTaskmanager]
    split
    · exact always_throw hO _
    · refine hO.exceptBind (always_ofExec hO _) fun permission => ?_
      exact hO.exceptBind (only_attempt fun x => rfl) fun x => hcheck _ x

theorem only_acpGate : Always (Only (Of .acl)) (acpGate st handle hostChainId acp api) := by
  have hO := mixes_only (Of .acl)
  unfold acpGate
  split
  · refine hO.bind (only_verifyAcp _ _ _) fun r => ?_
    rcases r with e | u
    · exact hO.pure _
    · exact hO.pure _
  · exact hO.pure _

/-! ## The commitment -/

theorem only_refreshCommitment (cfg : CommitmentConfig) (h : U256) :
    Always (Only (Of .commitment)) (refreshCommitment cfg h hostChainId).run := by
  have hO := mixes_only (Of .commitment)
  refine hO.exceptBind (only_attempt fun x => rfl) fun x => ?_
  rcases x with commit | e | _
  · simp only
    split_ifs
    · exact hO.exceptBind (only_attempt fun x => rfl) fun x => always_exceptPure hO _
    · exact hO.exceptBind (only_attempt fun x => rfl) fun x => always_throw hO _
  · exact always_throw hO _
  · exact always_throw hO _

theorem of_commitmentLog (reason : String) (mode : Option String) :
    Of .commitment ⟨.log (commitmentLog reason mode), ()⟩ := by
  show (if (commitmentLog reason mode).gate = "commitment" then Part.commitment
    else .decryption) = .commitment
  exact if_pos rfl

/-! Around a read of the registry the checks only look into the cache and log. -/

section Always

variable {P : Trace sig → Prop}

theorem always_fetchCommitment (hP : Mixes P) {cfg : CommitmentConfig} {h : U256}
    (hget : ∀ x, P [⟨.getFromCache (hostChainId, h), x⟩])
    (hread : Always P (refreshCommitment cfg h hostChainId).run) :
    Always P (fetchCommitment cfg h hostChainId).run := by
  refine hP.exceptBind (always_attempt hP hget) fun x => ?_
  rcases x with _ | c
  · exact hP.exceptBind hread fun c => always_exceptPure hP _
  · exact always_exceptPure hP _

variable (hP : Mixes P) (hlog : ∀ reason mode, P [⟨.log (commitmentLog reason mode), ()⟩])

include hP hlog

theorem always_refuse {α : Type} (warnOnly : Bool) (reason : String) (allowed : α)
    (resp : Response) : Always P (refuse warnOnly reason allowed resp).run := by
  unfold refuse
  split
  · exact hP.exceptBind (always_attempt hP fun _ => hlog _ _) fun x => always_exceptPure hP _
  · exact hP.exceptBind (always_attempt hP fun _ => hlog _ _) fun x => always_throw hP _

theorem always_enforceCommitment {cfg : CommitmentConfig} {h : U256}
    (hfetch : Always P (fetchCommitment cfg h hostChainId).run) :
    Always P (enforceCommitment h hostChainId api cfg).run := by
  refine hP.exceptBind (hP.lift hfetch) fun r => ?_
  rcases r with e | f
  · exact always_refuse hP hlog _ _ _ _
  · exact always_exceptPure hP _

theorem always_judgeCommitment (warnOnly : Bool) (actual : FixedBytes 32)
    (expected : CommitHash) :
    Always P (judgeCommitment api warnOnly actual expected).run := by
  unfold judgeCommitment
  split
  · exact always_exceptPure hP _
  · exact always_refuse hP hlog _ _ _ _

theorem always_integrity (crates : Crates) {cfg : Option CommitmentConfig} {h : U256}
    (hread : ∀ cfg', cfg = some cfg' → Always P (refreshCommitment cfg' h hostChainId).run)
    (f : FetchedCommitment) (data : List UInt8) :
    Always P (enforceCommitmentIntegrity h hostChainId api crates cfg f data).run := by
  have hattempt : ∀ reason mode,
      Always P (attempt (.log (commitmentLog reason mode)) : Attempt Response _).run :=
    fun reason mode => always_attempt hP fun _ => hlog reason mode
  rcases cfg with _ | cfg
  · exact always_judgeCommitment hP hlog _ _ _
  simp only [enforceCommitmentIntegrity]
  split
  · refine hP.exceptBind (hP.lift (hread cfg rfl)) fun r => ?_
    rcases r with (_ | m | d | m) | c
    · exact always_refuse hP hlog _ _ _ _
    · exact hP.exceptBind (hattempt _ _) fun x => always_judgeCommitment hP hlog _ _ _
    · exact hP.exceptBind (hattempt _ _) fun x => always_judgeCommitment hP hlog _ _ _
    · exact hP.exceptBind (hattempt _ _) fun x => always_judgeCommitment hP hlog _ _ _
    · simp only
      split
      · exact hattempt _ _
      · exact always_judgeCommitment hP hlog _ _ _
  · exact always_judgeCommitment hP hlog _ _ _

theorem always_commitmentGate
    (hfetch : ∀ cfg, st.commitmentVerifier = some cfg →
      Always P (fetchCommitment cfg handle.u256 hostChainId).run) :
    Always P (commitmentGate st handle hostChainId api).run := by
  unfold commitmentGate
  split
  next cfg hv => exact always_enforceCommitment hP hlog (hfetch cfg hv)
  next => exact always_exceptPure hP _

theorem always_integrityGate
    (hread : ∀ cfg, st.commitmentVerifier = some cfg →
      Always P (refreshCommitment cfg handle.u256 hostChainId).run)
    (expected : Option FetchedCommitment) (data : List UInt8) :
    Always P (integrityGate st handle hostChainId api expected data).run := by
  unfold integrityGate
  split
  · exact always_integrity hP hlog st.crates hread _ data
  · exact always_exceptPure hP _

end Always

theorem only_commitmentLog (reason : String) (mode : Option String) :
    Only (Of .commitment) [⟨.log (commitmentLog reason mode), ()⟩] :=
  only_singleton.2 (of_commitmentLog reason mode)

theorem only_fetchCommitment (cfg : CommitmentConfig) (h : U256) :
    Always (Only (Of .commitment)) (fetchCommitment cfg h hostChainId).run :=
  always_fetchCommitment (mixes_only _) (fun _ => only_singleton.2 rfl)
    (only_refreshCommitment cfg h)

theorem only_commitmentGate :
    Always (Only (Of .commitment)) (commitmentGate st handle hostChainId api).run :=
  always_commitmentGate (mixes_only _) only_commitmentLog fun cfg _ => only_fetchCommitment cfg _

theorem only_integrityGate (expected : Option FetchedCommitment) (data : List UInt8) :
    Always (Only (Of .commitment))
      (integrityGate st handle hostChainId api expected data).run :=
  always_integrityGate (mixes_only _) only_commitmentLog
    (fun cfg _ => only_refreshCommitment cfg _) expected data

/-! ## The decryption -/

theorem only_decryptServed (ct : FheCiphertext) :
    Always (Only (Of .decryption)) (decryptServed st handle api ct).run := by
  have hO := mixes_only (Of .decryption)
  have hmeta : Always (Only (Of .decryption)) (checkMetadata st handle api ct).run := by
    unfold checkMetadata
    simp only
    split
    · exact always_throw hO _
    split
    · exact always_throw hO _
    split
    · exact hO.exceptBind (only_attempt fun x => rfl) fun x => always_throw hO _
    split
    · exact hO.exceptBind (only_attempt fun x => rfl) fun x => always_throw hO _
    · exact always_exceptPure hO _
  have hgated : ∀ ty, Always (Only (Of .decryption)) (runGated (decryptClosure st ct ty)) := by
    intro ty
    refine hO.bind (only_perform fun x => rfl) fun x => ?_
    refine hO.bind (only_perform fun x => rfl) fun task => ?_
    refine hO.bind (only_perform fun x => rfl) fun x => ?_
    exact hO.pure _
  rw [decryptServed_eq]
  refine hO.exceptBind hmeta fun ty => ?_
  refine hO.exceptBind ?_ fun pt => always_exceptPure hO _
  exact hO.exceptBind (hO.lift (hgated ty)) fun r => always_ofExcept hO _

theorem only_fetchRow : Always (Only (Of .ctServer)) (fetchRow st handle api).run := by
  have hO := mixes_only (Of .ctServer)
  exact hO.exceptBind (hO.lift (hO.bind (only_perform fun x => rfl) fun reply => hO.pure _))
    fun row => always_ofExcept hO _

theorem Of.ne {p p' : Part} (hp : p ≠ p') {e : Event sig} (h : Of p e) : ¬ Of p' e :=
  fun h' => hp (h.symm.trans h')

theorem always_gates {P : Trace sig → Prop} (hP : Mixes P)
    (hacl : Always P (acpGate st handle hostChainId acp api))
    (hgate : Always P (commitmentGate st handle hostChainId api).run) :
    Always P (gates st handle hostChainId acp api).run := by
  unfold gates
  split
  · refine hP.exceptBind (hP.lift (hP.join hacl hgate)) fun r => ?_
    obtain ⟨resp | _, c⟩ := r
    · exact always_ofExcept hP _
    · exact always_throw hP _
  · exact always_exceptPure hP _

/-- What the parts of a request keep, and its commitment checks do, an admitted request keeps. -/
theorem always_admitted {P : Trace sig → Prop} (hP : Mixes P)
    (hpart : ∀ p tr, p ≠ .rest → p ≠ .commitment → p ≠ .admission → Only (Of p) tr → P tr)
    (hgate : Always P (commitmentGate st handle hostChainId api).run)
    (hcheck : ∀ expected data,
      Always P (integrityGate st handle hostChainId api expected data).run) :
    Always P (admitted st handle hostChainId acp api).run := by
  have hacl : Always P (acpGate st handle hostChainId acp api) :=
    only_acpGate.mono fun tr h => hpart _ tr (by decide) (by decide) (by decide) h
  have hfetch : Always P (fetchRow st handle api).run :=
    only_fetchRow.mono fun tr h => hpart _ tr (by decide) (by decide) (by decide) h
  rw [admitted_eq]
  refine hP.exceptBind (always_gates hP hacl hgate) fun expected => ?_
  rw [openRow_eq]
  refine hP.exceptBind hfetch fun ct => hP.exceptBind (always_ofExcept hP _) fun _ =>
    hP.exceptBind (hcheck _ _) fun _ => ?_
  exact (only_decryptServed ct).mono fun tr h =>
    hpart _ tr (by decide) (by decide) (by decide) h

/-- What an admitted request keeps, and the two ends of its admission do, `fetch_decrypt`
keeps. -/
theorem always_fetchDecrypt {P : Trace sig → Prop} (hP : Mixes P)
    (hpart : ∀ p tr, p ≠ .rest → p ≠ .commitment → Only (Of p) tr → P tr)
    (hgate : Always P (commitmentGate st handle hostChainId api).run)
    (hcheck : ∀ expected data,
      Always P (integrityGate st handle hostChainId api expected data).run) :
    Always P (fetchDecrypt st handle hostChainId acp api).run := by
  have hadmission : ∀ {o : Op}, o.part = .admission → ∀ x, P [⟨o, x⟩] := fun ho x =>
    hpart .admission _ (by decide) (by decide) (only_singleton.2 ho)
  rw [fetchDecrypt_eq]
  refine hP.exceptBind (always_attempt hP (hadmission rfl)) fun permit => ?_
  split
  · refine hP.exceptBind (hP.lift (always_admitted hP (fun p tr hr hc _ h => hpart p tr hr hc h)
      hgate hcheck)) fun out => ?_
    exact hP.exceptBind (always_attempt hP (hadmission rfl)) fun _ => always_ofExcept hP _
  · exact always_throw hP _

/-- No event of `fetch_decrypt` is one of the handlers around it. -/
theorem only_fetchDecrypt : Always (Only fun e => ¬ Of .rest e)
    (fetchDecrypt st handle hostChainId acp api).run := by
  have hne : ∀ (p : Part) (tr : Trace sig), p ≠ .rest → Only (Of p) tr →
      Only (fun e => ¬ Of .rest e) tr := fun p tr hp h => h.mono fun e he => he.ne hp
  exact always_fetchDecrypt (mixes_only _) (fun p tr hp _ h => hne p tr hp h)
    (only_commitmentGate.mono fun tr h => hne _ tr (by decide) h)
    fun expected data => (only_integrityGate expected data).mono fun tr h =>
      hne _ tr (by decide) h

/-- An admitted request does not touch its admission. -/
theorem only_admitted : Always (Only fun e => ¬ Of .admission e)
    (admitted st handle hostChainId acp api).run := by
  have hne : ∀ (p : Part) (tr : Trace sig), p ≠ .admission → Only (Of p) tr →
      Only (fun e => ¬ Of .admission e) tr := fun p tr hp h => h.mono fun e he => he.ne hp
  exact always_admitted (mixes_only _) (fun p tr _ _ hp h => hne p tr hp h)
    (only_commitmentGate.mono fun tr h => hne _ tr (by decide) h)
    fun expected data => (only_integrityGate expected data).mono fun tr h =>
      hne _ tr (by decide) h

end Teecryptor
