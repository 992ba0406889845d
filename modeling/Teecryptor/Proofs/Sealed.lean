import Teecryptor.Proofs.Authentic
import Teecryptor.Proofs.Recipient

/-!
# What the holder of the sealing key reads

A sealed result is a box to the sealing key of the request's ACP, under a key pair of its own. With
the secret key the box opens to the encoding of the value, so behind an enforcing gate the engine's
value reaches the user whole (`recipient_reads`). That the box opens is dryoc's, a hypothesis.
-/

namespace Teecryptor

open Interact Interact.Prog Rust

/-- Reads a box: its bytes, the nonce, the sender's public key and the recipient's secret key. -/
abbrev BoxOpener :=
  List UInt8 → List UInt8 → List UInt8 → FixedBytes 32 → Option (List UInt8)

/-- What was boxed to a key opens with its secret key. -/
def Opens (publicOf : FixedBytes 32 → FixedBytes 32) (box : CryptoBox) (opener : BoxOpener) :
    Prop :=
  ∀ plaintext nonce recipient sender data,
    box plaintext nonce (publicOf recipient).1 sender = .ok data →
      opener data nonce.1 (publicOf sender).1 recipient = some plaintext

/-- The key pairs of the run are pairs. -/
def PairedKeys (publicOf : FixedBytes 32 → FixedBytes 32) (tr : Trace sig) : Prop :=
  ∀ kp, (⟨.keyPairGen, kp⟩ : Event sig) ∈ tr → kp.publicKey = publicOf kp.secretKey

variable {st : AppState} {q : Ask} {tr : Trace sig}

/-- In `tr` the output was boxed to `pk` under a key pair that was generated there. -/
def BoxedIn (box : CryptoBox) (pk plaintext : List UInt8) (tr : Trace sig) (out : SealedOutput) :
    Prop :=
  ∃ (kp : KeyPair) (nonce : FixedBytes 24), (⟨.keyPairGen, kp⟩ : Event sig) ∈ tr
    ∧ box plaintext nonce pk kp.secretKey = .ok out.data
    ∧ out.publicKey = kp.publicKey.1 ∧ out.nonce = nonce.1

theorem sealToUser_boxed {box : CryptoBox} {pk plaintext : List UInt8} {out : SealedOutput}
    (h : Run (sealToUser box pk plaintext).run tr (.ok out)) : BoxedIn box pk plaintext tr out := by
  unfold sealToUser at h
  split at h
  · cases (run_throw.1 h).2
  split at h
  · cases (run_throw.1 h).2
  obtain ⟨kp, tr₁, rfl, h₁⟩ := run_attemptBind.1 h
  obtain ⟨nonce, tr₂, rfl, h₂⟩ := run_attemptBind.1 h₁
  split at h₂
  · cases (run_throw.1 h₂).2
  · next data hbox =>
    cases (run_exceptPure.1 h₂).2
    exact ⟨kp, nonce, List.mem_cons_self, hbox, rfl, rfl⟩

theorem sealFor_boxed {api : ApiVersion} {pk plaintext : List UInt8} {out : SealedOutput}
    (h : Run (sealFor st.crates api pk plaintext).run tr (.ok out)) :
    BoxedIn st.crates.cryptoBox pk plaintext tr out := by
  obtain ⟨tr₁, tr₂, r, rfl, h₁, h₂⟩ := run_liftBind.1 h
  obtain ⟨rfl, hr⟩ := run_ofExcept.1 h₂
  rcases r with err | out'
  · cases hr
  · cases hr
    rw [List.append_nil]
    exact sealToUser_boxed h₁

theorem finish_boxed {e : Entered} {acp : AcpData} {v : U256} {ty : EncryptionType}
    {resp : Response} (hs : e.sealTo = some acp)
    (h : Run (q.finish st.crates st.signer e (v, ty)).run tr (.ok resp)) :
    ∃ pk out signature, Bytes.hexDecode (trimStart0x acp.sealingKey.toList) = .ok pk
      ∧ BoxedIn st.crates.cryptoBox pk (ty.encode v) tr out
      ∧ resp.answer = some ⟨.sealed out, signature, ty.toI32⟩ := by
  simp only [Ask.finish, hs] at h
  obtain ⟨tr₁, tr₂, pk, rfl, h₁, h₂⟩ := run_exceptBind_ok h
  obtain ⟨tr₃, tr₄, out, rfl, h₃, h₄⟩ := run_exceptBind_ok h₂
  obtain ⟨tr₅, tr₆, signature, rfl, -, h₆⟩ := run_exceptBind_ok h₄
  obtain ⟨kp, nonce, hkp, hbox⟩ := sealFor_boxed h₃
  exact ⟨pk, out, signature, recipientKey_ok h₁, ⟨kp, nonce, by simp [hkp], hbox⟩, run_answerSeal h₆⟩

/-- In `tr` the request `q` decrypted its handle and boxed the value to its sealing key, as `out`. -/
def SealedBy (st : AppState) (q : Ask) (tr : Trace sig) (out : SealedOutput) (ty : EncryptionType)
    (v : U256) (handle : Handle) : Prop :=
  ∃ acp pk trF, q.acp = some acp
    ∧ Bytes.hexDecode (trimStart0x acp.sealingKey.toList) = .ok pk
    ∧ Handle.parse q.ctTempkey = some handle
    ∧ Run (fetchDecrypt st handle q.hostChainId q.acp q.api).run trF (.ok (v, ty))
    ∧ (∀ ev ∈ trF, ev ∈ tr) ∧ BoxedIn st.crates.cryptoBox pk (ty.encode v) tr out

theorem sealed_of_answer {req : Request} {resp : Response} {a : Answer} {out : SealedOutput}
    (h : Run (serve st req) tr resp) (ha : resp.answer = some a) (hout : a.result = .sealed out) :
    ∃ q handle ty v, req.ask = some q ∧ a.encryptionType = EncryptionType.toI32 ty
      ∧ SealedBy st q tr out ty v handle := by
  obtain ⟨q, e, trE, trF, trZ, ⟨v, ty⟩, hq, rfl, hE, hF, hZ⟩ := serve_answer h ha
  obtain ⟨hparse, hto, -⟩ := enter_ok hE
  rcases hs : e.sealTo with _ | acp
  · obtain ⟨signature, hans, -⟩ := finish_decrypt hs hZ
    rw [hans] at ha
    cases ha
    cases hout
  · obtain ⟨pk, out', signature, hpk, hbox, hans⟩ := finish_boxed hs hZ
    rw [hans] at ha
    cases ha
    cases hout
    have hacp : q.acp = some acp := by
      rw [hs] at hto
      split_ifs at hto
      exact hto.symm
    obtain ⟨kp, nonce, hkp, hbox⟩ := hbox
    exact ⟨q, e.handle, ty, v, hq, rfl, acp, pk, trF, hacp, hpk, hparse, hF,
      fun ev hev => by simp [hev], kp, nonce, by simp [hkp], hbox⟩

/-! ## In every run -/

section Runs

variable {ttl : ℕ} {s₀ : Shared} {c : Config (shared ttl) Request Response} {cfg : CommitmentConfig}
  {publicOf : FixedBytes 32 → FixedBytes 32} {opener : BoxOpener}

theorem BoxedIn.opened {box : CryptoBox} {pk plaintext : List UInt8} {out : SealedOutput}
    {recipient : FixedBytes 32} (h : BoxedIn box pk plaintext tr out)
    (hopens : Opens publicOf box opener) (hpaired : PairedKeys publicOf tr)
    (hpk : (publicOf recipient).1 = pk) :
    opener out.data out.nonce out.publicKey recipient = some plaintext := by
  obtain ⟨kp, nonce, hkp, hbox, hpublic, hnonce⟩ := h
  rw [hnonce, hpublic, hpaired kp hkp]
  exact hopens _ _ _ _ _ (hpk ▸ hbox)

/-- Behind an enforcing gate over a registry that commits to what the engine stores, who holds the
secret key of the sealing key of a request's ACP reads from every sealed result shown for it,
directly or to a poll, the engine's value of its handle: as many bytes as the handle's type has,
which are the value's last, unless ct-server forged the handle's row. -/
theorem recipient_reads (st : AppState) (hv : st.commitmentVerifier = some cfg)
    (henforce : cfg.warnOnly = false) (hk : st.keys.zone0Direct.Pairs) (value : U256 → U256)
    (engine : FixedBytes 32 → List UInt8)
    (hopens : Opens publicOf st.crates.cryptoBox opener) (h₀ : s₀.cache.entries = [])
    (hresults : s₀.NoResults) (hc : Reachable (serve st) s₀ c)
    (hanchored : Anchored st cfg value engine c)
    (hpaired : PairedKeys publicOf (c.hist.map Entry.event)) {pid : ℕ}
    {t : Thread sig Request Response} {resp : Response} {a : Answer} {out : SealedOutput}
    (ht : c.threads pid = some t) (hr : t.rest = .pure resp) (hs : resp.shown t.job = some a)
    (hout : a.result = .sealed out) :
    ∃ q acp pk handle ty, Source c t q a ∧ q.acp = some acp
      ∧ Bytes.hexDecode (trimStart0x acp.sealingKey.toList) = .ok pk
      ∧ Handle.parse q.ctTempkey = some handle
      ∧ a.encryptionType = EncryptionType.toI32 ty
      ∧ ((handleType (toBeBytes handle.u256)).toNat : ℤ) = EncryptionType.toI32 ty
      ∧ (Forged st cfg engine c handle ∨ ∀ recipient, (publicOf recipient).1 = pk →
        ∃ plaintext, opener out.data out.nonce out.publicKey recipient = some plaintext
          ∧ plaintext.length = ty.width
          ∧ Bytes.ofBe plaintext = (value handle.u256).toNat % 256 ^ ty.width) := by
  obtain ⟨q, hq⟩ := exists_source hresults hc ht hr hs
  obtain ⟨req, pid', resp', hask, hrun, hans⟩ := answered_of_source hc ht hr hs hq
  obtain ⟨q', handle, ty, v, hq', hty, acp, pk, trF, hacp, hpk, hparse, hF, hsub, hbox⟩ :=
    sealed_of_answer hrun hans hout
  rw [hask] at hq'
  cases hq'
  obtain ⟨htype, hvalue⟩ := authentic_fetched hv henforce hk h₀ hc hanchored hF hsub
  refine ⟨q, acp, pk, handle, ty, hq, hacp, hpk, hparse, hty, htype, ?_⟩
  rcases hvalue with rfl | hforged
  · refine .inr fun recipient hrecipient => ⟨_, hbox.opened hopens ?_ hrecipient, ?_, ?_⟩
    · intro kp hkp
      obtain ⟨e, he, -, hev⟩ := mem_eventsOf.1 hkp
      exact hpaired kp (List.mem_map.2 ⟨e, he, hev⟩)
    · rw [EncryptionType.encode_eq, Bytes.length_toBe]
    · rw [EncryptionType.encode_eq, Bytes.ofBe_toBe]
  · exact .inl hforged

end Runs

/-! ## A sealed result -/

section Sample

def sampleSealGates : Trace sig :=
  [⟨.isAllowedWithPermission sampleChain samplePermission sampleHandle.u256, .ok true⟩,
    ⟨.getFromCache (1, sampleHandle.u256), none⟩,
    ⟨.getCommitment (.zero 32) (toBeBytes sampleHandle.u256), .ok sampleHash.1⟩,
    ⟨.putInCache (1, sampleHandle.u256) sampleHash, ()⟩]

def sampleGatedFetch : Trace sig :=
  ⟨.tryAdmit, true⟩ :: (sampleSealGates ++ [⟨.getStoredCt sampleHandle.asStr, sampleReply⟩,
    ⟨.acquireDecrypt, ()⟩, ⟨.spawnBlocking, (0 : ℕ)⟩, ⟨.joinBlocking 0, ()⟩])
    ++ [⟨.dropAdmit, ()⟩]

def sampleSealed : SealedOutput :=
  ⟨List.replicate 16 0 ++ EncryptionType.bool.encode 1, (FixedBytes.zero 32).1,
    (FixedBytes.zero 24).1⟩

def sampleSealedResponse : Response :=
  .okJson (v1Body ⟨.sealed sampleSealed, sampleSignature, EncryptionType.bool.toI32⟩)

def sampleSealedTrace : Trace sig := ⟨.newUuid, "id"⟩ :: (sampleGatedFetch ++ sampleRandom)

def sampleSealRequest : Request :=
  .sealoutput none (.ok ⟨String.ofList sampleDigits, 1, some sampleAcp⟩)

theorem sample_sealGates : Run (gates (sampleState false) sampleHandle 1 (some sampleAcp) .v1).run
    sampleSealGates (.ok (some ⟨sampleHash, false⟩)) := by
  refine run_gates.2 ⟨[_], _, none, _, .append [_] _, ?_, ?_, rfl⟩
  · refine run_enforceAcp.2 (.inl ⟨rfl, run_exceptBind.2 (.inr ⟨[], _, samplePermission, rfl,
      run_ofExec.2 ⟨rfl, .inl ⟨_, sample_permission, rfl⟩⟩, ?_⟩)⟩)
    exact run_attemptBind.2 ⟨.ok true, [], rfl, run_checkAllowed_ok.2 ⟨rfl, rfl⟩⟩
  · refine run_enforceCommitment.2 (.inl ⟨_, rfl, ?_⟩)
    refine (run_fetchCommitment _ _ _).2 (.inr ⟨.ok sampleHash, _, rfl, rfl, ?_⟩)
    exact (run_refreshCommitment _ _ _).2 (.inl ⟨sampleHash, rfl, rfl⟩)

theorem sample_gatedFetch :
    Run (fetchDecrypt (sampleState false) sampleHandle 1 (some sampleAcp) .v1).run sampleGatedFetch
      (.ok (1, .bool)) := by
  refine run_fetchDecrypt.2 (.inr ⟨_, rfl, run_exceptBind.2
    (.inr ⟨sampleSealGates, _, _, rfl, sample_sealGates, ?_⟩)⟩)
  refine run_openRow.2 ⟨sampleReply, _, rfl, .inr
    ⟨sampleRow, servedRow_eq_ok.2 ⟨sample_row, rfl, rfl, rfl⟩, ?_⟩⟩
  refine run_exceptBind.2 (.inr ⟨[], _, (), rfl, ?_,
    run_decryptServed_ok.2 ⟨sample_metadata, ?_, 0, rfl⟩⟩)
  · simp only [integrityGate, sampleState]
    rw [integrity_judged (by simp [sampleCrates, sampleHash])]
    exact run_judgeCommitment.2 (.inl ⟨rfl, rfl, rfl⟩)
  · rw [decryptClosure_eq rfl rfl]
    exact sample_value

theorem sample_signSealed : signSealoutput sampleCrates.keccak256
    ⟨fun _ => .ok (⟨1, 1⟩, ⟨false, false⟩)⟩ sampleSealed.data sampleSealed.publicKey
    sampleSealed.nonce EncryptionType.bool.toI32 1 sampleHandle.asStr .raw
      = .ok sampleSignature := by
  simp only [signSealoutput, Handle.asStr, sampleHandle.agrees]
  rfl

theorem sample_serveSealed :
    Run (serve (sampleState false) sampleSealRequest) sampleSealedTrace sampleSealedResponse := by
  refine (run_v1 (q := sampleSealAsk) rfl rfl sample_parse).2 ⟨"id", _, rfl, .inl ⟨_, ?_, rfl⟩⟩
  refine run_exceptBind.2 (.inr ⟨[], _, some sampleAcp, rfl, run_exceptPure.2 ⟨rfl, rfl⟩,
    run_exceptBind.2 (.inr ⟨sampleGatedFetch, _, (1, .bool), rfl, sample_gatedFetch, ?_⟩)⟩)
  refine run_exceptBind.2 (.inr ⟨[], _, List.replicate 32 17, rfl, ?_,
    run_exceptBind.2 (.inr ⟨sampleRandom, [], sampleSealed, rfl, ?_, run_exceptBind.2 (.inr
      ⟨[], [], sampleSignature, rfl, run_resolveSignature (congrArg some sample_signSealed),
        run_exceptPure.2 ⟨rfl, rfl⟩⟩)⟩)⟩)
  · simp only [recipientKey, sample_key]
    exact run_exceptPure.2 ⟨rfl, rfl⟩
  · refine run_liftBind.2 ⟨sampleRandom, [], .ok _, rfl, ?_, run_ofExcept.2 ⟨rfl, rfl⟩⟩
    exact run_attemptBind.2 ⟨⟨.zero 32, .zero 32⟩, _, rfl, run_attemptBind.2 ⟨.zero 24, [], rfl,
      run_exceptPure.2 ⟨rfl, rfl⟩⟩⟩

theorem sample_performsSealed (ttl : ℕ) :
    ∃ s, (shared ttl).Performs sampleShared sampleSealedTrace s := by
  refine ⟨_, .step rfl (.step ⟨rfl, rfl⟩ (.step rfl (.step rfl (.step rfl (.step rfl
    (.step rfl (.step ⟨by decide, rfl⟩ (.step ⟨rfl, rfl⟩ (.cons (.single (.finish 0 ?_))
    ⟨?_, rfl⟩ (.step rfl (.step rfl (.step rfl (.nil .refl)))))))))))))⟩
  · decide
  · decide

/-- The box of the sample deployment is opened by taking its tag off. -/
def sampleOpener : BoxOpener := fun data _ _ _ => some (data.drop 16)

theorem recipient_reads_sample : ∃ c : Config (shared 10) Request Response,
    Reachable (serve (sampleState false)) sampleShared c
      ∧ ∃ plaintext, sampleOpener sampleSealed.data sampleSealed.nonce sampleSealed.publicKey
          ⟨List.replicate 32 17, by decide⟩ = some plaintext ∧ Bytes.ofBe plaintext = 1 := by
  obtain ⟨s, hs⟩ := sample_performsSealed 10
  obtain ⟨c, hc, -, hhist, ht⟩ := reachable_run sample_serveSealed hs
  have hmem : ∀ e ∈ c.hist, e.event ∈ sampleSealedTrace :=
    fun e he => hhist ▸ List.mem_map_of_mem he
  have hanchored := sample_anchored fun e he h hash hev => by
    simpa [hev, sampleSealedTrace, sampleGatedFetch, sampleSealGates, sampleRandom] using hmem e he
  have hforged := sample_not_forged ⟨.zero 20, .zero 32, 1, false, 10⟩
    fun e he s reply hev => by
      simpa [hev, sampleSealedTrace, sampleGatedFetch, sampleSealGates, sampleRandom]
        using hmem e he
  have hpaired : PairedKeys id (c.hist.map Entry.event) := by
    intro kp hkp
    rw [hhist] at hkp
    obtain rfl : kp = ⟨.zero 32, .zero 32⟩ := by
      simpa [sampleSealedTrace, sampleGatedFetch, sampleSealGates, sampleRandom] using hkp
    rfl
  have hopens : Opens id (sampleState false).crates.cryptoBox sampleOpener := by
    intro plaintext nonce recipient sender data h
    cases h
    simp [sampleOpener]
  obtain ⟨q, acp, pk, handle, ty, hq, hacp, hpk, -, hty, -, hreads⟩ :=
    recipient_reads (sampleState false) rfl rfl
      ⟨by decide, by decide, by decide, by decide, by decide⟩ (fun _ => 1) (fun _ => []) hopens rfl
      ⟨rfl, rfl⟩ hc hanchored hpaired ht rfl rfl rfl
  have hask : q = sampleSealAsk := by
    rcases hq with hq | ⟨id, hpoll, -⟩
    · exact (Option.some.inj hq).symm
    · cases hpoll
  subst hask
  cases hacp
  obtain ⟨plaintext, hopened, -, hvalue⟩ := hreads.resolve_left (hforged handle)
    ⟨List.replicate 32 17, by decide⟩ (Except.ok.inj (sample_key.symm.trans hpk))
  obtain rfl : EncryptionType.bool = ty := EncryptionType.toI32_inj hty
  exact ⟨c, hc, plaintext, hopened, hvalue⟩

end Sample

end Teecryptor
