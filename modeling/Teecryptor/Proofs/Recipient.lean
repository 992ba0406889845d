import Teecryptor.Proofs.AcpWire
import Teecryptor.Proofs.Versions

/-!
# The key an output is sealed to

The ACP's `sealingKey` is read twice, with different rules: `parse_b32` takes off one `0x` and pads
on the left for the tuple the ACL is asked about, and the handlers take off every `0x` and decode
the rest for the box. A sealed answer has passed both, and on the strings that pass both the two
readings are the same 32 bytes.
-/

namespace Teecryptor

open Bytes Interact Interact.Prog Rust

/-! ## The two readings -/

/-- Hex digits do not start with `0x`. -/
theorem stripPrefix_of_all {s : List Char} (h : s.all isHexDigit) :
    stripPrefix ['0', 'x'] s = none := by
  rcases hp : stripPrefix ['0', 'x'] s with _ | s'
  · rfl
  · rw [stripPrefix_eq_some.1 hp] at h
    simp [show isHexDigit 'x' = false from rfl] at h

theorem trimStart0x_of_stripPrefix_none {s : List Char} (h : stripPrefix ['0', 'x'] s = none) :
    trimStart0x s = s := by
  fun_cases trimStart0x s with
  | case1 s' => simp [stripPrefix] at h
  | case2 => rfl

/-- Where what follows one `0x` is hex, there is no other one to take off. -/
theorem trimStart0x_eq_unprefixed {s : String} (h : (unprefixed s).all isHexDigit) :
    trimStart0x s.toList = unprefixed s := by
  have hrest := trimStart0x_of_stripPrefix_none (stripPrefix_of_all h)
  unfold unprefixed at hrest ⊢
  rcases hp : stripPrefix ['0', 'x'] s.toList with _ | s'
  · exact trimStart0x_of_stripPrefix_none hp
  · rw [hp, Option.getD_some] at hrest
    rw [stripPrefix_eq_some.1 hp, Option.getD_some]
    exact hrest

/-- A string both readings take for 32 bytes is the same bytes to both. -/
theorem parseB32_eq_key {label s : String} {pk : List UInt8} {b : FixedBytes 32}
    (h : parseB32 label s = .ok b) (hd : hexDecode (trimStart0x s.toList) = .ok pk)
    (hl : pk.length = 32) : b.1 = pk := by
  obtain ⟨⟨-, hall⟩, rfl⟩ := (parseB32_returns label s).eq_ok.1 h
  rw [trimStart0x_eq_unprefixed hall] at hd
  have hlen : (unprefixed s).length = 2 * 32 := by rw [(hexDecode_eq_ok hd).2.1, hl]
  rw [hexDecode_of_all hlen hall] at hd
  exact Except.ok.inj hd

/-- The permission's key is `parse_b32` of the ACP's. -/
theorem tryFrom_sealingKey {parse : AddressParser} {acp : AcpData} {permission : ACP}
    (h : ACP.tryFrom parse acp = .ok permission) :
    parseB32 "sealingKey" acp.sealingKey = .ok permission.sealingKey := by
  unfold ACP.tryFrom at h
  simp only at h
  split at h
  · cases h
  split at h
  · cases h
  obtain ⟨_, -, h⟩ := bind_eq_ok.1 h
  obtain ⟨_, -, h⟩ := bind_eq_ok.1 h
  obtain ⟨_, -, h⟩ := bind_eq_ok.1 h
  obtain ⟨_, -, h⟩ := bind_eq_ok.1 h
  obtain ⟨_, -, h⟩ := bind_eq_ok.1 h
  obtain ⟨key, hk, h⟩ := bind_eq_ok.1 h
  cases h
  exact hk

/-! ## The answered request -/

/-- With an ACP verifier, a sealed answer is a box to the key of the permission the ACL was asked
about: what the handler decodes of `sealingKey` is, byte for byte, the field of the tuple that
`isAllowedWithPermission` allowed, and it is not all zero. -/
theorem sealed_to_authorized (st : AppState) {cfg : ChainsVerifierConfig}
    (hv : st.acpVerifier = some cfg) {req : Request} {q : Ask} (hq : req.ask = some q)
    (hseal : q.seals = true) {tr : Trace sig} {resp : Response} (h : Run (serve st req) tr resp)
    (hs : resp.status = 200) :
    ∃ acp pk permission pt ty sealed signature, q.acp = some acp
      ∧ hexDecode (trimStart0x acp.sealingKey.toList) = .ok pk
      ∧ parseB32 "sealingKey" acp.sealingKey = .ok permission.sealingKey
      ∧ pk = permission.sealingKey.1 ∧ (∃ b ∈ pk, b ≠ 0)
      ∧ (∃ chain handle, ⟨.isAllowedWithPermission chain permission handle, .ok true⟩ ∈ tr)
      ∧ (∀ chain permission' handle x,
        ⟨.isAllowedWithPermission chain permission' handle, x⟩ ∈ tr → permission' = permission)
      ∧ SealedFrom st.crates.cryptoBox pk (EncryptionType.encode ty pt) sealed
      ∧ resp.answer = some ⟨.sealed sealed, signature, ty.toI32⟩ := by
  obtain ⟨a, ha⟩ := answer_of_status hq h hs
  obtain ⟨q', e, trE, trF, trZ, ⟨pt, ty⟩, hq', rfl, hE, hF, hZ⟩ := serve_answer h ha
  obtain rfl : q = q' := Option.some.inj (hq.symm.trans hq')
  obtain ⟨-, hto, hsome⟩ := enter_ok hE
  obtain ⟨acp, hacp⟩ := hsome hseal
  rw [if_pos hseal, hacp] at hto
  obtain ⟨pk, sealed, signature, hpk, hbox, hans, -⟩ := finish_seal hto hZ
  have hpermit : (⟨.tryAdmit, true⟩ : Event sig) ∈ trE ++ (trF ++ trZ) := by
    rcases run_fetchDecrypt.1 hF with ⟨-, hr⟩ | ⟨tr', rfl, -⟩
    · cases hr
    · simp
  obtain ⟨handle, r, -, hA, hstop⟩ := serve_acl hq h hpermit
  simp only [acpGate, hv, hacp] at hA
  rcases run_enforceAcp.1 hA with ⟨-, hok⟩ | ⟨err, hr, -⟩
  swap
  · obtain ⟨rfl, -⟩ := hstop _ hr
    rw [answer_acpResponse] at ha
    cases ha
  obtain ⟨chain, permission, -, hp, htr⟩ := run_verifyViaTaskmanager_ok hok
  have hkey := tryFrom_sealingKey hp
  have hmem : ∀ {ev : Event sig}, Of .acl ev → ev ∈ trE ++ (trF ++ trZ) →
      ev = ⟨.isAllowedWithPermission chain permission handle.u256, .ok true⟩ := by
    intro ev hof hev
    have hin : ev ∈ eventsIn .acl (trE ++ (trF ++ trZ)) :=
      List.mem_filter.2 ⟨hev, decide_eq_true hof⟩
    rw [htr] at hin
    exact List.mem_singleton.1 hin
  refine ⟨acp, pk, permission, pt, ty, sealed, signature, hacp, hpk.decoded, hkey,
    (parseB32_eq_key hkey hpk.decoded hpk.length).symm, hpk.nonzero, ⟨chain, handle.u256, ?_⟩, ?_,
    hbox, hans⟩
  · have hin : (⟨.isAllowedWithPermission chain permission handle.u256, .ok true⟩ : Event sig)
        ∈ eventsIn .acl (trE ++ (trF ++ trZ)) := by
      rw [htr]
      exact List.mem_singleton_self _
    exact (List.mem_filter.1 hin).1
  · intro chain' permission' handle' x hev
    have hof : Of .acl (⟨.isAllowedWithPermission chain' permission' handle', x⟩ : Event sig) := rfl
    have := congrArg Sigma.fst (hmem hof hev)
    simp only [Op.isAllowedWithPermission.injEq] at this
    exact this.2.1

/-- A permission of nobody, to seal to the key of ones. -/
def sampleAcp : AcpData :=
  ⟨"", 0, "", 0, "", 0, [], [], String.ofList ('0' :: 'x' :: List.replicate 64 '1'), [], []⟩

def samplePermission : ACP :=
  ⟨.zero 20, 0, .zero 20, 0, .zero 20, 0, [], [], ⟨List.replicate 32 17, by decide⟩, [], []⟩

theorem sample_permission :
    ACP.tryFrom sampleCrates.parseAddress sampleAcp = .ok samplePermission := by
  decide +kernel

theorem sample_key :
    hexDecode (trimStart0x sampleAcp.sealingKey.toList) = .ok (List.replicate 32 17) := by
  decide +kernel
/-- The sample deployment without the commitment gate. -/
def sampleSealing : AppState := { sampleState false with commitmentVerifier := none }

def sampleSealAsk : Ask := ⟨.v1, true, none, String.ofList sampleDigits, 1, some sampleAcp⟩

def sampleSealFetch : Trace sig :=
  ⟨.tryAdmit, true⟩ :: ([⟨.isAllowedWithPermission sampleChain samplePermission sampleHandle.u256,
    .ok true⟩] ++ [⟨.getStoredCt sampleHandle.asStr, sampleReply⟩, ⟨.acquireDecrypt, ()⟩,
    ⟨.spawnBlocking, (0 : ℕ)⟩, ⟨.joinBlocking 0, ()⟩]) ++ [⟨.dropAdmit, ()⟩]

def sampleRandom : Trace sig := [⟨.keyPairGen, ⟨.zero 32, .zero 32⟩⟩, ⟨.nonceGen, .zero 24⟩]

def sampleSealTrace : Trace sig := ⟨.newUuid, "id"⟩ :: (sampleSealFetch ++ sampleRandom)

theorem sample_sealFetch :
    Run (fetchDecrypt sampleSealing sampleHandle 1 (some sampleAcp) .v1).run sampleSealFetch
      (.ok (1, .bool)) := by
  refine run_fetchDecrypt.2 (.inr ⟨_, rfl, run_exceptBind.2
    (.inr ⟨[_], _, none, rfl, ?_, ?_⟩)⟩)
  · rw [quiet_plain]
    refine run_gates.2 ⟨[_], [], none, .ok none, .left_nil _, ?_, run_exceptPure.2 ⟨rfl, rfl⟩, rfl⟩
    refine run_enforceAcp.2 (.inl ⟨rfl, run_exceptBind.2 (.inr ⟨[], _, samplePermission, rfl,
      run_ofExec.2 ⟨rfl, .inl ⟨_, sample_permission, rfl⟩⟩, ?_⟩)⟩)
    exact run_attemptBind.2 ⟨.ok true, [], rfl, run_checkAllowed_ok.2 ⟨rfl, rfl⟩⟩
  · refine run_openRow.2 ⟨sampleReply, _, rfl, .inr
      ⟨sampleRow, servedRow_eq_ok.2 ⟨sample_row, rfl, rfl, rfl⟩, ?_⟩⟩
    refine run_exceptBind.2 (.inr ⟨[], _, (), rfl, run_exceptPure.2 ⟨rfl, rfl⟩,
      run_decryptServed_ok.2 ⟨sample_metadata, ?_, 0, rfl⟩⟩)
    rw [decryptClosure_eq rfl rfl]
    exact sample_value

theorem sample_seal : ∃ resp, resp.status = 200 ∧ Run (serve sampleSealing
    (.sealoutput none (.ok ⟨String.ofList sampleDigits, 1, some sampleAcp⟩))) sampleSealTrace
      resp := by
  have hsign : signSealoutput sampleCrates.keccak256
      ⟨fun _ => .ok (⟨1, 1⟩, ⟨false, false⟩)⟩
      (List.replicate 16 0 ++ EncryptionType.bool.encode 1) (FixedBytes.zero 32).1
      (FixedBytes.zero 24).1 EncryptionType.bool.toI32 1 sampleHandle.asStr .raw
        = .ok sampleSignature := by
    simp only [signSealoutput, Handle.asStr, sampleHandle.agrees]
    rfl
  refine ⟨.okJson (v1Body ⟨.sealed ⟨List.replicate 16 0 ++ EncryptionType.bool.encode 1,
    (FixedBytes.zero 32).1, (FixedBytes.zero 24).1⟩, sampleSignature, EncryptionType.bool.toI32⟩), rfl,
    (run_v1 (q := sampleSealAsk) rfl rfl sample_parse).2 ⟨"id", _, rfl, .inl ⟨_, ?_, rfl⟩⟩⟩
  refine run_exceptBind.2 (.inr ⟨[], _, some sampleAcp, rfl, run_exceptPure.2 ⟨rfl, rfl⟩,
    run_exceptBind.2 (.inr ⟨sampleSealFetch, _, (1, .bool), rfl, sample_sealFetch, ?_⟩)⟩)
  refine run_exceptBind.2 (.inr ⟨[], _, List.replicate 32 17, rfl, ?_,
    run_exceptBind.2 (.inr ⟨sampleRandom, [], ⟨_, _, _⟩, rfl, ?_, run_exceptBind.2 (.inr
      ⟨[], [], sampleSignature, rfl, run_resolveSignature (congrArg some hsign),
        run_exceptPure.2 ⟨rfl, rfl⟩⟩)⟩)⟩)
  · simp only [recipientKey, sample_key]
    exact run_exceptPure.2 ⟨rfl, rfl⟩
  · refine run_liftBind.2 ⟨sampleRandom, [], .ok ⟨_, _, _⟩, rfl, ?_, run_ofExcept.2 ⟨rfl, rfl⟩⟩
    exact run_attemptBind.2 ⟨⟨.zero 32, .zero 32⟩, _, rfl, run_attemptBind.2 ⟨.zero 24, [], rfl,
      run_exceptPure.2 ⟨rfl, rfl⟩⟩⟩

theorem sealed_to_authorized_sample :
    ∃ pk : List UInt8, pk = List.replicate 32 17 ∧ pk = samplePermission.sealingKey.1 := by
  obtain ⟨resp, hs, h⟩ := sample_seal
  obtain ⟨acp, pk, permission, -, -, -, -, hacp, hd, -, hpk, -, -, huniq, -, -⟩ :=
    sealed_to_authorized sampleSealing rfl (q := sampleSealAsk) rfl rfl h hs
  cases hacp
  refine ⟨pk, Except.ok.inj (hd.symm.trans sample_key), ?_⟩
  rw [hpk, ← huniq sampleChain samplePermission sampleHandle.u256 (.ok true)
    (by simp [sampleSealTrace, sampleSealFetch])]

end Teecryptor
