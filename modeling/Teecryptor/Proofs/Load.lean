import Teecryptor.Proofs.Concurrency
import Teecryptor.Lib.Budget

/-!
# What requests cost the backends
-/

namespace Teecryptor

open Interact Interact.Prog Rust

/-! ## The calls that are counted -/

def isAclCall (e : Event sig) : Bool :=
  match e.1 with
  | .isAllowedWithPermission _ _ _ => true
  | .isPubliclyAllowed _ _ => true
  | _ => false

/-- The ACL allowed the request. -/
def isAclPass : Event sig → Bool
  | ⟨.isAllowedWithPermission _ _ _, .ok true⟩ => true
  | ⟨.isPubliclyAllowed _ _, .ok true⟩ => true
  | _ => false

def isRegistryRead (e : Event sig) : Bool :=
  match e.1 with
  | .getCommitment _ _ => true
  | _ => false

/-- The registry or the cache gave a commit hash. -/
def isHash : Event sig → Bool
  | ⟨.getCommitment _ _, .ok commit⟩ => commit ≠ .zero 32
  | ⟨.getFromCache _, some _⟩ => true
  | _ => false

def isFetch (e : Event sig) : Bool :=
  match e.1 with
  | .getStoredCt _ => true
  | _ => false

/-- A closure starts. -/
abbrev isSpawn : Event sig → Bool := Shared.isOp .spawnBlocking

section Kinds

variable {e : Event sig}

theorem isAclCall_of (h : ¬ Of .acl e) : isAclCall e = false := by
  obtain ⟨o, x⟩ := e
  cases o
  case isAllowedWithPermission => exact absurd rfl h
  case isPubliclyAllowed => exact absurd rfl h
  all_goals rfl

theorem isRegistryRead_of (h : ¬ Of .commitment e) : isRegistryRead e = false := by
  obtain ⟨o, x⟩ := e
  cases o
  case getCommitment => exact absurd rfl h
  all_goals rfl

theorem isFetch_of (h : ¬ Of .ctServer e) : isFetch e = false := by
  obtain ⟨o, x⟩ := e
  cases o
  case getStoredCt => exact absurd rfl h
  all_goals rfl

theorem isSpawn_of (h : ¬ Of .decryption e) : isSpawn e = false := isOp_of_part h

end Kinds

section Admitted

variable {st : AppState} {handle : Handle} {hostChainId : UInt64} {acp : Option AcpData}
  {api : ApiVersion} {tr : Trace sig} {ε α : Type} {f : Event sig → Bool} {n : ℕ}

theorem atMost_attempt (o : Op) : AtMost f 1 (attempt o : Attempt ε o.Ans).run :=
  (atMost_call (S := sig) o).lift

theorem atMost_none {o : Op} (h : ∀ x, f ⟨o, x⟩ = false) :
    AtMost f 0 (attempt o : Attempt ε o.Ans).run :=
  atMost_of_only (Q := fun e => f e = false) (only_attempt h) fun _ he => he

theorem atMost_part {y : Task α} {p p' : Part} (h : Always (Only (Of p)) y) (hne : p ≠ p')
    (hf : ∀ {e}, ¬ Of p' e → f e = false) : AtMost f 0 y :=
  atMost_of_only h fun _ he => hf (he.ne hne)

theorem atMost_acpGate : AtMost isAclCall 1 (acpGate st handle hostChainId acp api) := by
  have hcheck : ∀ (cfg : ChainConfig) (x : RpcResult Bool),
      AtMost isAclCall 0 (checkAllowed cfg x).run := by
    rintro cfg ((_ | _) | e | _)
    all_goals exact atMost_pure _
  have hparse : ∀ r : Exec AcpError ACP, AtMost isAclCall 0 (Attempt.ofExec r).run := fun r =>
    atMost_of_only (Q := fun _ => False) (always_ofExec (mixes_only _) r) fun _ h => h.elim
  have hverify : ∀ cfg, AtMost isAclCall 1
      (verifyAcp st.crates cfg handle.u256 hostChainId acp).run := by
    intro cfg
    rcases acp with _ | acp
    · simp only [verifyAcp, verifyPubliclyAllowed]
      split
      · exact (atMost_pure _).mono (Nat.zero_le 1)
      · exact AtMost.exceptBind (m := 1) (n := 0) (atMost_attempt _) fun x => hcheck _ x
    · simp only [verifyAcp, verifyViaTaskmanager]
      split
      · exact (atMost_pure _).mono (Nat.zero_le 1)
      · exact AtMost.exceptBind (m := 0) (n := 1) (hparse _) fun permission =>
          AtMost.exceptBind (m := 1) (n := 0) (atMost_attempt _) fun x => hcheck _ x
  unfold acpGate
  split
  · refine AtMost.bind (m := 1) (n := 0) (hverify _) fun r => ?_
    rcases r with e | u
    · exact atMost_pure _
    · exact atMost_pure _
  · exact (atMost_pure _).mono (Nat.zero_le 1)

theorem atMost_refreshCommitment (cfg : CommitmentConfig) (h : U256) :
    AtMost isRegistryRead 1 (refreshCommitment cfg h hostChainId).run := by
  refine AtMost.exceptBind (m := 1) (n := 0) (atMost_attempt _) fun x => ?_
  rcases x with commit | e | _
  · simp only
    split_ifs
    · exact AtMost.exceptBind (m := 0) (n := 0) (atMost_none fun _ => rfl) fun _ => atMost_pure _
    · exact AtMost.exceptBind (m := 0) (n := 0) (atMost_none fun _ => rfl) fun _ => atMost_pure _
  · exact atMost_pure _
  · exact atMost_pure _

theorem atMost_refuse (warnOnly : Bool) (reason : String) (allowed : α) (resp : Response) :
    AtMost isRegistryRead 0 (refuse warnOnly reason allowed resp).run := by
  unfold refuse
  split
  · exact AtMost.exceptBind (m := 0) (n := 0) (atMost_none fun _ => rfl) fun _ => atMost_pure _
  · exact AtMost.exceptBind (m := 0) (n := 0) (atMost_none fun _ => rfl) fun _ => atMost_pure _

theorem atMost_commitmentGate :
    AtMost isRegistryRead 1 (commitmentGate st handle hostChainId api).run := by
  unfold commitmentGate
  split
  · refine AtMost.exceptBind (m := 1) (n := 0) (AtMost.lift ?_) fun r => ?_
    · refine AtMost.exceptBind (m := 0) (n := 1) (atMost_none fun _ => rfl) fun x => ?_
      rcases x with _ | c
      · exact AtMost.exceptBind (m := 1) (n := 0) (atMost_refreshCommitment _ _) fun _ =>
          atMost_pure _
      · exact (atMost_pure _).mono (Nat.zero_le 1)
    · rcases r with e | c
      · exact atMost_refuse _ _ _ _
      · exact atMost_pure _
  · exact (atMost_pure _).mono (Nat.zero_le 1)

theorem atMost_integrityGate (expected : Option FetchedCommitment) (data : List UInt8) :
    AtMost isRegistryRead 1 (integrityGate st handle hostChainId api expected data).run := by
  have hjudge : ∀ warnOnly actual hash,
      AtMost isRegistryRead 0 (judgeCommitment api warnOnly actual hash).run := by
    intro warnOnly actual hash
    unfold judgeCommitment
    split
    · exact atMost_pure _
    · exact atMost_refuse _ _ _ _
  unfold integrityGate
  split
  · rcases st.commitmentVerifier with _ | cfg
    · exact (hjudge _ _ _).mono (Nat.zero_le 1)
    simp only [enforceCommitmentIntegrity]
    split
    · refine AtMost.exceptBind (m := 1) (n := 0) (atMost_refreshCommitment _ _).lift fun r => ?_
      rcases r with (_ | m | d | m) | c
      · exact atMost_refuse _ _ _ _
      · exact AtMost.exceptBind (m := 0) (n := 0) (atMost_none fun _ => rfl) fun _ => hjudge _ _ _
      · exact AtMost.exceptBind (m := 0) (n := 0) (atMost_none fun _ => rfl) fun _ => hjudge _ _ _
      · exact AtMost.exceptBind (m := 0) (n := 0) (atMost_none fun _ => rfl) fun _ => hjudge _ _ _
      · simp only
        split
        · exact atMost_none fun _ => rfl
        · exact hjudge _ _ _
    · exact (hjudge _ _ _).mono (Nat.zero_le 1)
  · exact (atMost_pure _).mono (Nat.zero_le 1)

/-- What an admitted request does of a kind, it does at the gates, when it fetches, when it checks
the bytes, or when it decrypts. -/
theorem atMost_admitted {a c i d : ℕ} (hacl : AtMost f a (acpGate st handle hostChainId acp api))
    (hgate : AtMost f c (commitmentGate st handle hostChainId api).run)
    (hfetch : AtMost f n (fetchRow st handle api).run)
    (hcheck : ∀ expected data,
      AtMost f i (integrityGate st handle hostChainId api expected data).run)
    (hdecrypt : ∀ ct, AtMost f d (decryptServed st handle api ct).run) :
    AtMost f (a + c + (n + (i + d))) (admitted st handle hostChainId acp api).run := by
  have hgates : AtMost f (a + c) (gates st handle hostChainId acp api).run := by
    unfold gates
    split
    · refine AtMost.exceptBind (m := a + c) (n := 0) (hacl.join hgate).lift fun r => ?_
      obtain ⟨resp | _, c⟩ := r
      · exact atMost_pure _
      · exact atMost_pure _
    · exact (atMost_pure _).mono (Nat.zero_le _)
  exact hgates.exceptBind fun expected => hfetch.exceptBind fun ct =>
    (AtMost.exceptBind (m := 0) (atMost_pure _) fun _ => (hcheck _ _).exceptBind fun _ =>
      hdecrypt ct).mono (by omega)

theorem atMost_fetchRow : AtMost isFetch 1 (fetchRow st handle api).run := by
  refine AtMost.exceptBind (m := 1) (n := 0) (AtMost.lift ?_) fun row => atMost_pure _
  exact AtMost.bind (m := 1) (n := 0) (atMost_call (S := sig) _) fun reply => atMost_pure _

theorem atMost_decryptServed (ct : FheCiphertext) :
    AtMost isSpawn 1 (decryptServed st handle api ct).run := fun _ _ hs =>
  ((repaysPermit_decryptServed ct).part hs).1.trans ((repaysPermit_decryptServed ct).most hs)

theorem atMost_aclCalls : AtMost isAclCall 1 (admitted st handle hostChainId acp api).run :=
  atMost_admitted (a := 1) (c := 0) (n := 0) (i := 0) (d := 0) atMost_acpGate
    (atMost_part only_commitmentGate (by decide) isAclCall_of)
    (atMost_part only_fetchRow (by decide) isAclCall_of)
    (fun _ _ => atMost_part (only_integrityGate _ _) (by decide) isAclCall_of)
    fun ct => atMost_part (only_decryptServed ct) (by decide) isAclCall_of

theorem atMost_registryReads :
    AtMost isRegistryRead 2 (admitted st handle hostChainId acp api).run :=
  atMost_admitted (a := 0) (c := 1) (n := 0) (i := 1) (d := 0)
    (atMost_part only_acpGate (by decide) isRegistryRead_of) atMost_commitmentGate
    (atMost_part only_fetchRow (by decide) isRegistryRead_of) atMost_integrityGate
    fun ct => atMost_part (only_decryptServed ct) (by decide) isRegistryRead_of

theorem atMost_fetches : AtMost isFetch 1 (admitted st handle hostChainId acp api).run :=
  atMost_admitted (a := 0) (c := 0) (n := 1) (i := 0) (d := 0)
    (atMost_part only_acpGate (by decide) isFetch_of)
    (atMost_part only_commitmentGate (by decide) isFetch_of) atMost_fetchRow
    (fun _ _ => atMost_part (only_integrityGate _ _) (by decide) isFetch_of)
    fun ct => atMost_part (only_decryptServed ct) (by decide) isFetch_of

theorem atMost_spawns : AtMost isSpawn 1 (admitted st handle hostChainId acp api).run :=
  atMost_admitted (a := 0) (c := 0) (n := 0) (i := 0) (d := 1)
    (atMost_part only_acpGate (by decide) isSpawn_of)
    (atMost_part only_commitmentGate (by decide) isSpawn_of)
    (atMost_part only_fetchRow (by decide) isSpawn_of)
    (fun _ _ => atMost_part (only_integrityGate _ _) (by decide) isSpawn_of) atMost_decryptServed

/-- An admitted request is still at its gates, or it passed them and fetched. -/
theorem steps_admitted {p : Task (Except Response (U256 × EncryptionType))}
    (h : Steps (admitted st handle hostChainId acp api).run tr p) :
    Only (fun e => ¬ Of .ctServer e ∧ ¬ Of .decryption e) tr
      ∨ ∃ expected trG reply trR, tr = trG ++ ⟨.getStoredCt handle.asStr, reply⟩ :: trR
        ∧ Run (gates st handle hostChainId acp api).run trG (.ok expected) := by
  have hgates : Always (Only fun e => ¬ Of .ctServer e ∧ ¬ Of .decryption e)
      (gates st handle hostChainId acp api).run :=
    always_gates (mixes_only _)
      (only_acpGate.mono fun _ ho => ho.mono fun _ he => ⟨he.ne (by decide), he.ne (by decide)⟩)
      (only_commitmentGate.mono fun _ ho =>
        ho.mono fun _ he => ⟨he.ne (by decide), he.ne (by decide)⟩)
  rw [admitted_eq] at h
  rcases steps_exceptBind h with ⟨p', hG⟩ | ⟨trG, trO, expected, rfl, hG, hO⟩
  · exact .inl (hgates _ _ hG)
  · obtain ⟨k, hk⟩ : ∃ k, (openRow st handle hostChainId api expected).run
        = .op (.getStoredCt handle.asStr) k := ⟨_, rfl⟩
    rw [hk] at hO
    cases hO with
    | refl => exact .inl (by rw [List.append_nil]; exact hgates.run hG)
    | op hR => exact .inr ⟨expected, trG, _, _, rfl, hG⟩

/-- What passed the gates was allowed by the ACL, if there is one. -/
theorem gates_pass (hv : st.acpVerifier.isSome) {expected : Option FetchedCommitment}
    (h : Run (gates st handle hostChainId acp api).run tr (.ok expected)) :
    0 < tr.countP isAclPass := by
  obtain ⟨trA, trC, a, c, hs, hA, -, hr⟩ := run_gates.1 h
  obtain ⟨cfg, hcfg⟩ := Option.isSome_iff_exists.1 hv
  rcases a with _ | resp
  · simp only [acpGate, hcfg] at hA
    rcases run_enforceAcp.1 hA with ⟨-, hV⟩ | ⟨e, he, -⟩
    · obtain ⟨chain, -, hmem⟩ := aclAllowed_of_verifyAcp hV
      rw [List.countP_pos_iff]
      rcases acp with _ | acp
      · exact ⟨_, hs.mem.2 (.inl hmem), rfl⟩
      · obtain ⟨permission, -, hmem⟩ := hmem
        exact ⟨_, hs.mem.2 (.inl hmem), rfl⟩
    · cases he
  · cases hr

/-- What passed an enforcing commitment gate has a commit hash for the handle. -/
theorem gates_hash {cfg : CommitmentConfig} (hv : st.commitmentVerifier = some cfg)
    (henforce : cfg.warnOnly = false) {expected : Option FetchedCommitment}
    (h : Run (gates st handle hostChainId acp api).run tr (.ok expected)) :
    0 < tr.countP isHash := by
  obtain ⟨trA, trC, a, c, hs, -, hC, hr⟩ := run_gates.1 h
  rcases a with _ | resp
  · simp only at hr
    subst hr
    simp only [commitmentGate, hv] at hC
    rw [List.countP_pos_iff]
    rcases run_enforceCommitment.1 hC with ⟨fetched, -, hF⟩ | ⟨e, tr₁, tr₂, rfl, -, hR⟩
    · rcases (run_fetchCommitment _ _ _).1 hF with ⟨c, -, rfl⟩ | ⟨r', tr', hr, rfl, hR⟩
      · exact ⟨_, hs.mem.2 (.inr List.mem_cons_self), rfl⟩
      · rcases (run_refreshCommitment _ _ _).1 hR with ⟨c, -, rfl⟩ | ⟨rfl, -⟩ | ⟨rfl, -⟩ | ⟨e, rfl, -⟩
        · refine ⟨answered cfg handle.u256 (.ok c.1), hs.mem.2 (.inr (by simp)), ?_⟩
          simpa [isHash] using c.2
        all_goals cases hr
    · rw [henforce] at hR
      rcases run_refuse.1 hR with ⟨hw, -⟩ | ⟨-, hr, -⟩
      · cases hw
      · cases hr
  · cases hr

/-! ## A request -/

/-- The end of the admission, and its start, are not among the events counted. -/
structure Inside (f : Event sig → Bool) : Prop where
  start : ∀ x, f ⟨.tryAdmit, x⟩ = false
  stop : ∀ x, f ⟨.dropAdmit, x⟩ = false

/-- What an admitted request keeps between two kinds of its events, `fetch_decrypt` does. -/
theorem within_fetchDecrypt {k : ℕ} {g : Event sig → Bool} (hf : Inside f) (hg : Inside g)
    (h : Always (Within k f g) (admitted st handle hostChainId acp api).run) :
    Always (Within k f g) (fetchDecrypt st handle hostChainId acp api).run := by
  intro tr p hs
  rcases steps_fetchDecrypt hs with rfl | rfl | ⟨tr', p', hs', hends⟩
  · exact (mixes_within k f g).nil
  · exact within_of_none (by simp [hf.start])
  · have hw := h tr' p' hs'
    unfold Within at hw ⊢
    rcases hends with rfl | rfl
    · simpa [List.countP_cons, hf.start, hg.start] using hw
    · simpa [List.countP_cons, List.countP_append, hf.start, hg.start, hf.stop, hg.stop] using hw

/-- What an admitted request does at most `k` times, a request does at most `k` times for its
admission. -/
theorem within_admission {k : ℕ} (hf : Inside f)
    (h : AtMost f k (admitted st handle hostChainId acp api).run) :
    Always (Within k f Shared.isAdmitted) (fetchDecrypt st handle hostChainId acp api).run := by
  intro tr p hs
  rcases steps_fetchDecrypt hs with rfl | rfl | ⟨tr', p', hs', hends⟩
  · exact (mixes_within k f _).nil
  · exact within_of_none (by simp [hf.start])
  · have hw : tr'.countP f ≤ k := h tr' p' hs'
    have hk : ∀ n, k ≤ k * (n + 1) := fun n => Nat.le_mul_of_pos_right k n.succ_pos
    have hone : Shared.isAdmitted ⟨.tryAdmit, true⟩ = true := rfl
    unfold Within
    rcases hends with rfl | rfl
    · rw [List.countP_cons_of_neg (by simp [hf.start]), List.countP_cons_of_pos hone]
      exact hw.trans (hk _)
    · rw [List.countP_cons_of_neg (by simp [hf.start]), List.countP_cons_of_pos hone,
        List.countP_append, List.countP_cons_of_neg (by simp [hf.stop]), List.countP_nil]
      exact hw.trans (hk _)

theorem spawns_within :
    Always (Within 1 isSpawn isFetch) (admitted st handle hostChainId acp api).run := by
  intro tr p hs
  have hmost := atMost_spawns tr p hs
  rcases steps_admitted hs with ho | ⟨expected, trG, reply, trR, rfl, -⟩
  · exact within_of_none (countP_of_only ho fun _ he => isSpawn_of he.2)
  · have hfetch : isFetch ⟨.getStoredCt handle.asStr, reply⟩ = true := rfl
    unfold Within
    rw [List.countP_append (p := isFetch), List.countP_cons (p := isFetch), hfetch]
    simp only [if_true]
    omega

theorem fetches_within {g : Event sig → Bool}
    (hg : ∀ {tr expected}, Run (gates st handle hostChainId acp api).run tr (.ok expected) →
      0 < tr.countP g) :
    Always (Within 1 isFetch g) (admitted st handle hostChainId acp api).run := by
  intro tr p hs
  have hmost := atMost_fetches tr p hs
  rcases steps_admitted hs with ho | ⟨expected, trG, reply, trR, rfl, hG⟩
  · exact within_of_none (countP_of_only ho fun _ he => isFetch_of he.1)
  · have hpos := hg hG
    unfold Within
    rw [List.countP_append (p := g)]
    omega

end Admitted

/-! ## All requests -/

section

variable {st : AppState}

/-- What `fetch_decrypt` keeps between two kinds of its events, and the events around it do not
count, a request keeps. -/
theorem within_serve {k : ℕ} {f g : Event sig → Bool} (hrest : ∀ e, Of .rest e → f e = false)
    (hfetch : ∀ handle hostChainId acp api,
      Always (Within k f g) (fetchDecrypt st handle hostChainId acp api).run) (req : Request) :
    Always (Within k f g) (serve st req) :=
  always_serve (mixes_within k f g) (fun _ h => within_of_none (countP_of_only h hrest)) hfetch req

/-- What the backends, and the CPU, are asked to do, against the admissions. -/
structure Load (st : AppState) (count : (Event sig → Bool) → ℕ) : Prop where
  acl : count isAclCall ≤ count Shared.isAdmitted
  registry : count isRegistryRead ≤ 2 * count Shared.isAdmitted
  row : count isFetch ≤ count Shared.isAdmitted
  allowed : st.acpVerifier.isSome → count isFetch ≤ count isAclPass
  committed : ∀ cfg, st.commitmentVerifier = some cfg → cfg.warnOnly = false →
    count isFetch ≤ count isHash
  closure : count isSpawn ≤ count isFetch

/-- Whatever respects the laws of one request respects the load. -/
theorem load_of {count : (Event sig → Bool) → ℕ}
    (h : ∀ {k f g}, (∀ req, Always (Within k f g) (serve st req)) → count f ≤ k * count g) :
    Load st count := by
  have hone : ∀ {f g}, (∀ e, Of .rest e → f e = false) →
      (∀ handle hostChainId acp api,
        Always (Within 1 f g) (fetchDecrypt st handle hostChainId acp api).run) →
      count f ≤ count g := fun hrest hfetch => by
    simpa using h (within_serve hrest hfetch)
  have hinside : ∀ {f}, (∀ x, f ⟨.tryAdmit, x⟩ = false) → (∀ x, f ⟨.dropAdmit, x⟩ = false) →
      Inside f := fun h₁ h₂ => ⟨h₁, h₂⟩
  have hfetch : Inside isFetch := ⟨fun _ => rfl, fun _ => rfl⟩
  refine ⟨?_, ?_, ?_, fun hv => ?_, fun cfg hv henforce => ?_, ?_⟩
  · exact hone (fun e he => isAclCall_of (he.ne (by decide))) fun _ _ _ _ =>
      within_admission (hinside (fun _ => rfl) fun _ => rfl) atMost_aclCalls
  · exact h (within_serve (fun e he => isRegistryRead_of (he.ne (by decide))) fun _ _ _ _ =>
      within_admission (hinside (fun _ => rfl) fun _ => rfl) atMost_registryReads)
  · exact hone (fun e he => isFetch_of (he.ne (by decide))) fun _ _ _ _ =>
      within_admission hfetch atMost_fetches
  · exact hone (fun e he => isFetch_of (he.ne (by decide))) fun _ _ _ _ =>
      within_fetchDecrypt hfetch ⟨fun _ => rfl, fun _ => rfl⟩ (fetches_within (gates_pass hv))
  · exact hone (fun e he => isFetch_of (he.ne (by decide))) fun _ _ _ _ =>
      within_fetchDecrypt hfetch ⟨fun _ => rfl, fun _ => rfl⟩
        (fetches_within (gates_hash hv henforce))
  · exact hone (fun e he => isSpawn_of (he.ne (by decide))) fun _ _ _ _ =>
      within_fetchDecrypt ⟨fun _ => rfl, fun _ => rfl⟩ hfetch spawns_within

end

/-- However the requests interleave, the backends and the CPU are asked for no more than what the
admissions allow, by each request and by all of them. -/
theorem load_bounded (st : AppState) (ttl : ℕ) (s₀ : Shared)
    {c : Config (shared ttl) Request Response} (hc : Reachable (serve st) s₀ c) :
    Load st c.count ∧ c.count Shared.isAdmitted ≤ c.next
      ∧ ∀ pid, Load st (c.eventsOf pid).countP
        ∧ (c.eventsOf pid).countP Shared.isAdmitted ≤ 1 := by
  refine ⟨load_of hc.count_le, ?_, fun pid => ⟨load_of fun h => ?_, ?_⟩⟩
  · rw [← Nat.one_mul c.next]
    exact hc.count_le_threads fun req _ _ hs => (repaysSlot_serve req).most hs
  · exact hc.always (mixes_within _ _ _).nil h pid
  · exact hc.always (P := fun tr => tr.countP Shared.isAdmitted ≤ 1) (Nat.zero_le 1)
      (fun req _ _ hs => (repaysSlot_serve req).most hs) pid

theorem load_bounded_sample : ∃ c : Config (shared 10) Request Response,
    Reachable (serve (sampleState false)) sampleCaps c ∧ c.count isSpawn = 1
      ∧ 1 ≤ c.count isAclPass ∧ 1 ≤ c.count isHash := by
  have hrun : Run (serve (sampleState false) (sampleRequest 1))
      (sampleStarted ++ [⟨.joinBlocking 0, ()⟩, ⟨.dropAdmit, ()⟩]) sampleResponse :=
    sample_serve false
  obtain ⟨p, hp, -⟩ := hrun.split
  have hs : ∃ s, (shared 10).Performs sampleCaps sampleStarted s :=
    ⟨_, .step rfl (.step ⟨rfl, rfl⟩ (.step rfl (.step rfl (.step rfl (.step rfl (.step rfl
      (.step ⟨Nat.succ_pos 0, rfl⟩ (.step ⟨rfl, rfl⟩ (.nil .refl)))))))))⟩
  obtain ⟨s, hs⟩ := hs
  obtain ⟨c, hc, -, hhist, -⟩ := reachable_run hp hs
  have hspawn : c.count isSpawn = 1 := by
    unfold Config.count
    rw [← Function.comp_def, ← List.countP_map, hhist]
    decide
  obtain ⟨hload, -⟩ := load_bounded (sampleState false) 10 sampleCaps hc
  have hfetch : 1 ≤ c.count isFetch := hspawn ▸ hload.closure
  exact ⟨c, hc, hspawn, hfetch.trans (hload.allowed rfl),
    hfetch.trans (hload.committed _ rfl rfl)⟩

end Teecryptor
