import Teecryptor.Proofs.Runs

/-!
# The runs of `fetch_decrypt`

How a request can go from admission to its plaintext: the gates' events in any order, the fetch,
the re-read of a stale commitment, and the three events of the decryption.
-/

namespace Teecryptor

open Interact Interact.Prog Rust

variable {st : AppState} {handle : Handle} {hostChainId : UInt64} {acp : Option AcpData}
  {api : ApiVersion} {tr : Trace sig}

/-- Both gates run to their end, in any order of their events, and the ACL's response goes first. -/
theorem run_gates {r : Except Response (Option FetchedCommitment)} :
    Run (gates st handle hostChainId acp api).run tr r ↔
      ∃ trA trC a c, Shuffle trA trC tr ∧ Run (acpGate st handle hostChainId acp api) trA a
        ∧ Run (commitmentGate st handle hostChainId api).run trC c
        ∧ r = match a with
          | some resp => .error resp
          | none => c := by
  unfold gates
  split_ifs with hv
  · rw [run_liftBind]
    constructor
    · rintro ⟨tr₁, tr₂, ⟨a, c⟩, rfl, h₁, h₂⟩
      obtain ⟨trA, trC, hs, hA, hC⟩ := (run_join _ _ _ _ _).1 h₁
      rcases a with _ | resp
      · obtain ⟨rfl, rfl⟩ := run_ofExcept.1 h₂
        exact ⟨trA, trC, none, r, by simpa using hs, hA, hC, rfl⟩
      · obtain ⟨rfl, rfl⟩ := run_throw.1 h₂
        exact ⟨trA, trC, some resp, c, by simpa using hs, hA, hC, rfl⟩
    · rintro ⟨trA, trC, a, c, hs, hA, hC, rfl⟩
      refine ⟨tr, [], (a, c), by simp, (run_join _ _ _ _ _).2 ⟨trA, trC, hs, hA, hC⟩, ?_⟩
      rcases a with _ | resp
      · exact run_ofExcept.2 ⟨rfl, rfl⟩
      · exact run_throw.2 ⟨rfl, rfl⟩
  · simp only [Option.isSome_iff_ne_none, ne_eq, not_or, not_not] at hv
    simp only [acpGate, commitmentGate, hv, pure_eq, run_pure, run_exceptPure]
    constructor
    · rintro ⟨rfl, rfl⟩
      exact ⟨[], [], none, .ok none, .nil, ⟨rfl, rfl⟩, ⟨rfl, rfl⟩, rfl⟩
    · rintro ⟨trA, trC, a, c, hs, ⟨rfl, rfl⟩, ⟨rfl, rfl⟩, rfl⟩
      exact ⟨hs.eq_of_left_nil, rfl⟩

/-- The row in ct-server's answer, after the checks on its form. -/
def servedRow (st : AppState) (handle : Handle) (api : ApiVersion) (reply : HttpReply) :
    Except Response FheCiphertext :=
  match readReply st.crates.parseGetCtResponse handle.asStr reply with
  | .error e => .error (ctFetchResponse api e)
  | .ok ct =>
    match checkForm api ct with
    | .error resp => .error resp
    | .ok () => .ok ct

theorem checkForm_eq_ok {ct : FheCiphertext} {u : Unit} : checkForm api ct = .ok u ↔
    ct.securityZone = 0 ∧ ct.compact = false ∧ ct.gzipped = true := by
  unfold checkForm
  split_ifs with h₁ h₂
  · simp [h₁]
  · simp only [false_iff]
    rintro ⟨-, hc, hg⟩
    simp [hc, hg] at h₂
  · simp only [not_or, Bool.not_eq_true, not_not, Bool.not_eq_false] at h₁ h₂
    simp [h₁, h₂]

theorem servedRow_eq_ok {reply : HttpReply} {ct : FheCiphertext} :
    servedRow st handle api reply = .ok ct ↔
      readReply st.crates.parseGetCtResponse handle.asStr reply = .ok ct
        ∧ ct.securityZone = 0 ∧ ct.compact = false ∧ ct.gzipped = true := by
  unfold servedRow
  rcases readReply st.crates.parseGetCtResponse handle.asStr reply with e | ct'
  · simp
  · simp only [Except.ok.injEq]
    constructor
    · intro h
      rcases hf : checkForm api ct' with resp | ⟨⟩
      · rw [hf] at h
        cases h
      · rw [hf] at h
        cases h
        exact ⟨rfl, checkForm_eq_ok.1 hf⟩
    · rintro ⟨rfl, hz⟩
      rw [(checkForm_eq_ok (u := ())).2 hz]

theorem run_fetchRow {r : Except Response FheCiphertext} :
    Run (fetchRow st handle api).run tr r ↔
      ∃ reply, tr = [⟨.getStoredCt handle.asStr, reply⟩]
        ∧ r = (readReply st.crates.parseGetCtResponse handle.asStr reply).mapError
            (ctFetchResponse api) := by
  rw [fetchRow, run_liftBind]
  constructor
  · rintro ⟨tr₁, tr₂, row, rfl, h₁, h₂⟩
    obtain ⟨rfl, rfl⟩ := run_ofExcept.1 h₂
    obtain ⟨reply, tr', rfl, h⟩ := run_performBind.1 h₁
    obtain ⟨rfl, rfl⟩ := run_pure.1 h
    exact ⟨reply, rfl, rfl⟩
  · rintro ⟨reply, rfl, rfl⟩
    exact ⟨_, [], _, rfl, run_performBind.2 ⟨reply, [], rfl, run_pure.2 ⟨rfl, rfl⟩⟩,
      run_ofExcept.2 ⟨rfl, rfl⟩⟩

/-- One fetch, then an early end, or the commitment check and what follows it. -/
theorem run_openRow {expected : Option FetchedCommitment}
    {r : Except Response (U256 × EncryptionType)} :
    Run (openRow st handle hostChainId api expected).run tr r ↔
      ∃ reply tr', tr = ⟨.getStoredCt handle.asStr, reply⟩ :: tr'
        ∧ ((∃ resp, servedRow st handle api reply = .error resp ∧ tr' = [] ∧ r = .error resp)
          ∨ ∃ ct, servedRow st handle api reply = .ok ct
            ∧ Run (integrityGate st handle hostChainId api expected ct.data
                >>= fun _ => decryptServed st handle api ct).run tr' r) := by
  rw [openRow_eq, run_exceptBind]
  constructor
  · rintro (⟨resp, rfl, h⟩ | ⟨tr₁, tr₂, ct, rfl, h₁, h₂⟩)
    · obtain ⟨reply, rfl, hr⟩ := run_fetchRow.1 h
      refine ⟨reply, [], rfl, .inl ⟨resp, ?_, rfl, rfl⟩⟩
      rcases hrow : readReply st.crates.parseGetCtResponse handle.asStr reply with e | ct
      · simp only [hrow, Except.mapError, Except.error.injEq] at hr
        simp [servedRow, hrow, hr]
      · simp [hrow, Except.mapError] at hr
    · obtain ⟨reply, rfl, hr⟩ := run_fetchRow.1 h₁
      refine ⟨reply, tr₂, rfl, ?_⟩
      rcases hrow : readReply st.crates.parseGetCtResponse handle.asStr reply with e | ct'
      · simp [hrow, Except.mapError] at hr
      · simp only [hrow, Except.mapError, Except.ok.injEq] at hr
        subst hr
        rcases run_exceptBind.1 h₂ with ⟨resp, rfl, h⟩ | ⟨tr₃, tr₄, u, rfl, h₃, h₄⟩
        · obtain ⟨rfl, hf⟩ := run_ofExcept.1 h
          exact .inl ⟨resp, by simp [servedRow, hrow, ← hf], rfl, rfl⟩
        · obtain ⟨rfl, hf⟩ := run_ofExcept.1 h₃
          exact .inr ⟨ct, by simp [servedRow, hrow, ← hf], h₄⟩
  · rintro ⟨reply, tr', rfl, h⟩
    rcases hrow : readReply st.crates.parseGetCtResponse handle.asStr reply with e | ct
    · rcases h with ⟨resp, hs, rfl, rfl⟩ | ⟨ct, hs, -⟩
      · simp only [servedRow, hrow, Except.error.injEq] at hs
        exact .inl ⟨_, rfl, run_fetchRow.2 ⟨reply, rfl, by simp [hrow, hs, Except.mapError]⟩⟩
      · simp [servedRow, hrow] at hs
    · refine .inr ⟨[⟨.getStoredCt handle.asStr, reply⟩], tr', ct, rfl,
        run_fetchRow.2 ⟨reply, rfl, by simp [hrow, Except.mapError]⟩, run_exceptBind.2 ?_⟩
      rcases hf : checkForm api ct with resp | ⟨⟩
      · rcases h with ⟨resp, hs, rfl, rfl⟩ | ⟨ct, hs, -⟩
        · simp only [servedRow, hrow, hf, Except.error.injEq] at hs
          exact .inl ⟨_, rfl, run_ofExcept.2 ⟨rfl, by rw [hs]⟩⟩
        · simp [servedRow, hrow, hf] at hs
      · rcases h with ⟨resp, hs, rfl, rfl⟩ | ⟨ct', hs, h⟩
        · simp [servedRow, hrow, hf] at hs
        · simp only [servedRow, hrow, hf, Except.ok.injEq] at hs
          subst hs
          exact .inr ⟨[], tr', (), rfl, run_ofExcept.2 ⟨rfl, rfl⟩, h⟩

theorem run_runGated {ε α : Type} {closure : Exec ε α} {r : Except Panic (Except ε α)} :
    Run (runGated closure) tr r ↔
      (∃ task, tr = [⟨.acquireDecrypt, ()⟩, ⟨.spawnBlocking, task⟩, ⟨.joinBlocking task, ()⟩])
        ∧ r = joined closure := by
  unfold runGated
  rw [run_performBind]
  constructor
  · rintro ⟨⟨⟩, tr₁, rfl, h₁⟩
    obtain ⟨task, tr₂, rfl, h₂⟩ := run_performBind.1 h₁
    obtain ⟨⟨⟩, tr₃, rfl, h₃⟩ := run_performBind.1 h₂
    obtain ⟨rfl, rfl⟩ := run_pure.1 h₃
    exact ⟨⟨task, rfl⟩, rfl⟩
  · rintro ⟨⟨task, rfl⟩, rfl⟩
    exact ⟨(), _, rfl, run_performBind.2 ⟨task, _, rfl, run_performBind.2
      ⟨(), [], rfl, run_pure.2 ⟨rfl, rfl⟩⟩⟩⟩

/-- The row's type and zone are the handle's, and its zone is served. -/
def MetadataOk (handle : Handle) (ct : FheCiphertext) (ty : EncryptionType) : Prop :=
  ct.securityZone = 0 ∧ ct.encryptionType = ty.toI32
    ∧ ((handleType (toBeBytes handle.u256)).toNat : ℤ) = ty.toI32
    ∧ handleZone (toBeBytes handle.u256) = 0

theorem handleZone_eq_zero {b : FixedBytes 32} :
    ((handleZone b).toNat : ℤ) = 0 ↔ handleZone b = 0 := by
  rw [← UInt8.toNat_inj]
  exact Int.natCast_eq_zero

theorem run_checkMetadata_ok {ct : FheCiphertext} {ty : EncryptionType} :
    Run (checkMetadata st handle api ct).run tr (.ok ty) ↔ tr = [] ∧ MetadataOk handle ct ty := by
  unfold checkMetadata MetadataOk
  by_cases hz : ct.securityZone = 0
  · simp only [KeyStore.clientKey, hz, if_true, Option.isNone_some, Bool.false_eq_true, if_false,
      true_and]
    rcases ht : EncryptionType.fromI32 ct.encryptionType with e | ty'
    · simp only [run_throw, reduceCtorEq, and_false, false_iff, not_and]
      rintro - h
      rw [EncryptionType.fromI32_eq_ok.2 h] at ht
      simp at ht
    · have hty := EncryptionType.fromI32_eq_ok.1 ht
      simp only
      split_ifs with h₁ h₂
      · constructor
        · intro h
          obtain ⟨x, tr', -, h'⟩ := run_attemptBind.1 h
          simp [run_pure] at h'
        · rintro ⟨-, h, h', -⟩
          exact absurd (h'.trans h.symm) h₁
      · constructor
        · intro h
          obtain ⟨x, tr', -, h'⟩ := run_attemptBind.1 h
          simp [run_pure] at h'
        · rintro ⟨-, -, -, h⟩
          exact absurd (handleZone_eq_zero.2 h) h₂
      · simp only [not_not] at h₁ h₂
        rw [run_exceptPure, Except.ok.injEq]
        constructor
        · rintro ⟨rfl, rfl⟩
          exact ⟨rfl, hty, h₁.trans hty, handleZone_eq_zero.1 h₂⟩
        · rintro ⟨rfl, h, -⟩
          exact ⟨rfl, EncryptionType.toI32_inj (h.symm.trans hty)⟩
  · simp only [KeyStore.clientKey, hz, if_false, Option.isNone_none, if_true, run_throw]
    simp

theorem decryptResult_eq_ok {closure : Exec DecryptError U256} {pt : U256} :
    decryptResult api (joined closure) = .ok pt ↔ closure = .ok pt := by
  rcases closure with (e | p) | a
  · simp [joined, decryptResult]
  · simp [joined, decryptResult]
  · simp [joined, decryptResult]

theorem run_decryptRow {ct : FheCiphertext} {ty : EncryptionType} {r : Except Response U256} :
    Run (decryptRow st api ct ty).run tr r ↔
      (∃ task, tr = [⟨.acquireDecrypt, ()⟩, ⟨.spawnBlocking, task⟩, ⟨.joinBlocking task, ()⟩])
        ∧ r = decryptResult api (joined (decryptClosure st ct ty)) := by
  rw [decryptRow, run_liftBind]
  constructor
  · rintro ⟨tr₁, tr₂, result, rfl, h₁, h₂⟩
    obtain ⟨rfl, rfl⟩ := run_ofExcept.1 h₂
    obtain ⟨⟨task, rfl⟩, rfl⟩ := run_runGated.1 h₁
    exact ⟨⟨task, rfl⟩, rfl⟩
  · rintro ⟨⟨task, rfl⟩, rfl⟩
    exact ⟨_, [], _, by simp, run_runGated.2 ⟨⟨task, rfl⟩, rfl⟩, run_ofExcept.2 ⟨rfl, rfl⟩⟩

/-- A decryption succeeds on a row with the handle's metadata that the closure decrypts. -/
theorem run_decryptServed_ok {ct : FheCiphertext} {pt : U256} {ty : EncryptionType} :
    Run (decryptServed st handle api ct).run tr (.ok (pt, ty)) ↔
      MetadataOk handle ct ty ∧ decryptClosure st ct ty = .ok pt
        ∧ ∃ task,
          tr = [⟨.acquireDecrypt, ()⟩, ⟨.spawnBlocking, task⟩, ⟨.joinBlocking task, ()⟩] := by
  rw [decryptServed_eq, run_exceptBind]
  constructor
  · rintro (⟨e, he, -⟩ | ⟨tr₁, tr₂, ty', rfl, h₁, h₂⟩)
    · simp at he
    obtain ⟨rfl, hm⟩ := run_checkMetadata_ok.1 h₁
    rcases run_exceptBind.1 h₂ with ⟨e, he, -⟩ | ⟨tr₃, tr₄, pt', rfl, h₃, h₄⟩
    · simp at he
    obtain ⟨rfl, hp⟩ := run_exceptPure.1 h₄
    simp only [Except.ok.injEq, Prod.mk.injEq] at hp
    obtain ⟨rfl, rfl⟩ := hp
    obtain ⟨⟨task, rfl⟩, hr⟩ := run_decryptRow.1 h₃
    exact ⟨hm, decryptResult_eq_ok.1 hr.symm, task, by simp⟩
  · rintro ⟨hm, hc, task, rfl⟩
    refine .inr ⟨[], _, ty, rfl, run_checkMetadata_ok.2 ⟨rfl, hm⟩, run_exceptBind.2 (.inr
      ⟨_, [], pt, by simp, run_decryptRow.2 ⟨⟨task, rfl⟩, (decryptResult_eq_ok.2 hc).symm⟩, ?_⟩)⟩
    exact run_exceptPure.2 ⟨rfl, rfl⟩

/-- A request is shed, or it runs under a permit that its last event gives back. -/
theorem run_fetchDecrypt {r : Except Response (U256 × EncryptionType)} :
    Run (fetchDecrypt st handle hostChainId acp api).run tr r ↔
      (tr = [⟨.tryAdmit, false⟩] ∧ r = .error (api.retryable .overloaded))
      ∨ ∃ tr', tr = ⟨.tryAdmit, true⟩ :: (tr' ++ [⟨.dropAdmit, ()⟩])
        ∧ Run (admitted st handle hostChainId acp api).run tr' r := by
  rw [fetchDecrypt_eq, run_attemptBind]
  constructor
  · rintro ⟨_ | _, tr₁, rfl, h⟩
    · obtain ⟨rfl, rfl⟩ := run_throw.1 h
      exact .inl ⟨rfl, rfl⟩
    · obtain ⟨tr₂, tr₃, out, rfl, h₂, h₃⟩ := run_liftBind.1 h
      obtain ⟨x, tr₄, rfl, h₄⟩ := run_attemptBind.1 h₃
      obtain ⟨rfl, rfl⟩ := run_ofExcept.1 h₄
      exact .inr ⟨tr₂, rfl, h₂⟩
  · rintro (⟨rfl, rfl⟩ | ⟨tr', rfl, h⟩)
    · exact ⟨false, [], rfl, run_throw.2 ⟨rfl, rfl⟩⟩
    · exact ⟨true, _, rfl, run_liftBind.2 ⟨tr', _, r, rfl, h, run_attemptBind.2
        ⟨(), [], rfl, run_ofExcept.2 ⟨rfl, rfl⟩⟩⟩⟩

end Teecryptor
