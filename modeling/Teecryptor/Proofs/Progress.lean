import Teecryptor.Proofs.Concurrency
import Teecryptor.Proofs.AcpWire
import Teecryptor.Lib.Progress

/-!
# Every request gets its response

A request waits for two things, a CPU permit and its closure. The permits that are not free are
with closures, which finish, and with requests that go on to start theirs. So the requests cannot
wait for each other, and without new ones they all come to their response, in whatever order they
run (`requests_end`).
-/

namespace Teecryptor

open Interact Interact.Prog Rust

/-! ## No request panics -/

section Calm

def Op.IsPanic : Op → Prop
  | .panic _ => True
  | _ => False

/-- The task never panics. -/
abbrev Calm {α : Type} (p : Task α) : Prop := Never Op.IsPanic p

variable {ε α β : Type} {st : AppState} {handle : Handle} {hostChainId : UInt64}
  {acp : Option AcpData} {api : ApiVersion}

theorem calm_attempt {o : Op} (ho : ¬ o.IsPanic) : Calm (attempt o : Attempt ε o.Ans).run :=
  .lift (.call ho)

theorem calm_ofExcept (r : Except ε α) : Calm (Attempt.ofExcept r).run := .pure _

theorem calm_ofExec {r : Exec ε α} (h : NoPanic r) : Calm (Attempt.ofExec r).run := by
  rcases r with (e | p) | a
  · exact .pure _
  · exact absurd rfl (h p)
  · exact .pure _

theorem noPanic_parseAddr (parse : AddressParser) (label s : String) :
    NoPanic (parseAddr parse label s) := by
  unfold parseAddr
  simp only
  split_ifs
  · exact noPanic_ok _
  · split
    · exact noPanic_ok _
    · exact noPanic_fail _

theorem noPanic_tryMapIdx {f : ℕ → α → Exec AcpError β} (hf : ∀ i a, NoPanic (f i a)) :
    ∀ (i : ℕ) (l : List α), NoPanic (tryMapIdx f i l)
  | _, [] => noPanic_ok _
  | i, a :: l => (hf i a).bind fun _ => (noPanic_tryMapIdx hf (i + 1) l).bind fun _ => noPanic_ok _

theorem noPanic_tryFrom (parse : AddressParser) (p : AcpData) : NoPanic (ACP.tryFrom parse p) := by
  have haddr := noPanic_parseAddr parse
  have hb32 := fun label s => (parseB32_returns label s).noPanic
  unfold ACP.tryFrom
  refine .guarded (.guarded ?_ _) _
  exact (noPanic_tryMapIdx (fun i s => haddr _ _) _ _).bind fun _ =>
    (noPanic_tryMapIdx (fun i s => hb32 _ _) _ _).bind fun _ => (haddr _ _).bind fun _ =>
    (haddr _ _).bind fun _ => (haddr _ _).bind fun _ => (hb32 _ _).bind fun _ => noPanic_ok _

theorem calm_verifyAcp (crates : Crates) (cfg : ChainsVerifierConfig) (h : U256) :
    Calm (verifyAcp crates cfg h hostChainId acp).run := by
  have hcheck : ∀ (cfg : ChainConfig) (x : RpcResult Bool), Calm (checkAllowed cfg x).run := by
    rintro cfg ((_ | _) | e | _)
    · exact .pure _
    · exact .pure _
    · exact .pure _
    · exact .pure _
  rcases acp with _ | acp
  · simp only [verifyAcp, verifyPubliclyAllowed]
    split
    · exact .pure _
    · exact .exceptBind (calm_attempt id) fun x => hcheck _ x
  · simp only [verifyAcp, verifyViaTaskmanager]
    split
    · exact .pure _
    · exact .exceptBind (calm_ofExec (noPanic_tryFrom _ _)) fun permission =>
        .exceptBind (calm_attempt id) fun x => hcheck _ x

theorem calm_acpGate : Calm (acpGate st handle hostChainId acp api) := by
  unfold acpGate
  split
  · refine .bind (calm_verifyAcp _ _ _) fun r => ?_
    rcases r with e | u
    · exact .pure _
    · exact .pure _
  · exact .pure _

theorem calm_refreshCommitment (cfg : CommitmentConfig) (h : U256) :
    Calm (refreshCommitment cfg h hostChainId).run := by
  refine .exceptBind (calm_attempt id) fun x => ?_
  rcases x with commit | e | _
  · simp only
    split_ifs
    · exact .exceptBind (calm_attempt id) fun _ => .pure _
    · exact .exceptBind (calm_attempt id) fun _ => .pure _
  · exact .pure _
  · exact .pure _

theorem calm_refuse (warnOnly : Bool) (reason : String) (allowed : α) (resp : Response) :
    Calm (refuse warnOnly reason allowed resp).run := by
  unfold refuse
  split
  · exact .exceptBind (calm_attempt id) fun _ => .pure _
  · exact .exceptBind (calm_attempt id) fun _ => .pure _

theorem calm_commitmentGate : Calm (commitmentGate st handle hostChainId api).run := by
  unfold commitmentGate
  split
  · refine .exceptBind (.lift (.exceptBind (calm_attempt id) fun x => ?_)) fun r => ?_
    · rcases x with _ | c
      · exact .exceptBind (calm_refreshCommitment _ _) fun _ => .pure _
      · exact .pure _
    · rcases r with e | f
      · exact calm_refuse _ _ _ _
      · exact .pure _
  · exact .pure _

theorem calm_judgeCommitment (warnOnly : Bool) (actual : FixedBytes 32) (expected : CommitHash) :
    Calm (judgeCommitment api warnOnly actual expected).run := by
  unfold judgeCommitment
  split
  · exact .pure _
  · exact calm_refuse _ _ _ _

theorem calm_integrityGate (expected : Option FetchedCommitment) (data : List UInt8) :
    Calm (integrityGate st handle hostChainId api expected data).run := by
  unfold integrityGate
  split
  · rcases st.commitmentVerifier with _ | cfg
    · exact calm_judgeCommitment _ _ _
    simp only [enforceCommitmentIntegrity]
    split
    · refine .exceptBind (.lift (calm_refreshCommitment _ _)) fun r => ?_
      rcases r with (_ | m | d | m) | c
      · exact calm_refuse _ _ _ _
      · exact .exceptBind (calm_attempt id) fun _ => calm_judgeCommitment _ _ _
      · exact .exceptBind (calm_attempt id) fun _ => calm_judgeCommitment _ _ _
      · exact .exceptBind (calm_attempt id) fun _ => calm_judgeCommitment _ _ _
      · simp only
        split
        · exact calm_attempt id
        · exact calm_judgeCommitment _ _ _
    · exact calm_judgeCommitment _ _ _
  · exact .pure _

theorem calm_gates : Calm (gates st handle hostChainId acp api).run := by
  unfold gates
  split
  · refine .exceptBind (.lift (.join calm_acpGate calm_commitmentGate)) fun r => ?_
    obtain ⟨resp | _, c⟩ := r
    · exact .pure _
    · exact .pure _
  · exact .pure _

theorem calm_decryptServed (ct : FheCiphertext) :
    Calm (decryptServed st handle api ct).run := by
  have hmeta : Calm (checkMetadata st handle api ct).run := by
    unfold checkMetadata
    simp only
    split
    · exact .pure _
    split
    · exact .pure _
    split
    · exact .exceptBind (calm_attempt id) fun _ => .pure _
    split
    · exact .exceptBind (calm_attempt id) fun _ => .pure _
    · exact .pure _
  rw [decryptServed_eq]
  refine .exceptBind hmeta fun ty => .exceptBind ?_ fun pt => .pure _
  exact .exceptBind (.lift (.bind (.call id) fun _ => .bind (.call id) fun _ =>
    .bind (.call id) fun _ => .pure _)) fun r => calm_ofExcept _

theorem calm_fetchDecrypt : Calm (fetchDecrypt st handle hostChainId acp api).run := by
  have hadmitted : Calm (admitted st handle hostChainId acp api).run := by
    rw [admitted_eq]
    exact .exceptBind calm_gates fun expected => .exceptBind (.exceptBind
      (.lift (.bind (.call id) fun _ => .pure _)) fun row => calm_ofExcept _) fun ct =>
      .exceptBind (calm_ofExcept _) fun _ => .exceptBind (calm_integrityGate _ _) fun _ =>
      calm_decryptServed ct
  rw [fetchDecrypt_eq]
  refine .exceptBind (calm_attempt id) fun permit => ?_
  split
  · exact .exceptBind (.lift hadmitted) fun out => .exceptBind (calm_attempt id) fun _ =>
      calm_ofExcept _
  · exact .pure _

theorem calm_respond {h : Attempt Response Response} (hc : Calm h.run) : Calm (respond h) := by
  refine hc.bind fun r => ?_
  rcases r with resp | resp
  · exact .pure _
  · exact .pure _

theorem calm_enter (q : Ask) : Calm q.enter.run := by
  refine .exceptBind (calm_attempt id) fun id' => .exceptBind ?_ fun handle =>
    .exceptBind ?_ fun now => .exceptBind ?_ fun sealTo => .pure _
  · unfold parseHandle
    split
    · exact .pure _
    · exact .pure _
  · unfold Ask.clock
    split
    · exact .pure _
    · exact calm_attempt id
  · unfold Ask.recipient
    split
    · exact .pure _
    · rcases q.acp with _ | acp
      · exact .exceptBind (.pure _) fun _ => .pure _
      · exact .exceptBind (.pure _) fun _ => .pure _

theorem calm_sealFor (crates : Crates) (pk plaintext : List UInt8) :
    Calm (sealFor crates api pk plaintext).run := by
  refine .exceptBind (.lift ?_) fun r => calm_ofExcept _
  unfold sealToUser
  split
  · exact .pure _
  split
  · exact .pure _
  refine .exceptBind (calm_attempt id) fun kp => .exceptBind (calm_attempt id) fun nonce => ?_
  split
  · exact .pure _
  · exact .pure _

theorem calm_finish (q : Ask) (crates : Crates) (signer : Option Signer) (e : Entered)
    (out : U256 × EncryptionType) : Calm (q.finish crates signer e out).run := by
  have hsign : ∀ s, Calm (resolveSignature q.api s).run := by
    rintro (_ | _ | _)
    · exact .pure _
    · exact .pure _
    · exact .pure _
  have hkey : ∀ acp, Calm (recipientKey q.api acp).run := by
    intro acp
    unfold recipientKey
    split
    · exact .pure _
    · exact .pure _
  obtain ⟨pt, ty⟩ := out
  simp only [Ask.finish]
  split
  · refine .exceptBind (hsign _) fun signature => ?_
    unfold Ask.answerDecrypt
    split
    · exact .pure _
    · exact .exceptBind (calm_attempt id) fun _ => .pure _
  · refine .exceptBind (hkey _) fun pk => .exceptBind (calm_sealFor _ _ _) fun sealed =>
      .exceptBind (hsign _) fun signature => ?_
    unfold Ask.answerSeal
    split
    · exact .pure _
    · exact .exceptBind (calm_attempt id) fun _ => .pure _

/-- No request panics, in any run. -/
theorem calm_serve (st : AppState) (req : Request) : Calm (serve st req) := by
  rcases hq : req.ask with _ | q
  · rcases unasked_cases hq with ⟨api, rejection, hserve⟩ | ⟨id', rfl⟩ | ⟨id', rfl⟩
    · rw [hserve]
      exact .pure _
    · refine .bind (.call id) fun r => ?_
      rcases r with _ | r
      · exact .pure _
      · exact .pure _
    · refine .bind (.call id) fun r => ?_
      rcases r with _ | r
      · exact .pure _
      · exact .pure _
  · rw [serve_eq st hq]
    exact calm_respond (.exceptBind (calm_enter q) fun e => .exceptBind calm_fetchDecrypt
      fun out => calm_finish q _ _ _ _)

end Calm

/-! ## Nothing waits for ever -/

section Stuck

variable {st : AppState} {ttl : ℕ} {s₀ : Shared} {c c' : Config (shared ttl) Request Response}

/-- The closures running: what the environment is busy with. -/
def closures (s : Shared) : ℕ := s.running.length

/-- The environment starts no closure. -/
theorem closures_le {s s' : Shared} (h : Shared.Env s s') : closures s' ≤ closures s := by
  rcases h with ⟨now, -⟩ | ⟨task, htask⟩
  · exact le_rfl
  · exact (List.length_erase_of_mem htask).trans_le (Nat.sub_le _ _)

/-- Only a free permit, and the end of a closure, can be waited for. -/
theorem perform_enabled (ttl : ℕ) (s : Shared) {o : Op} (hpanic : ¬ o.IsPanic)
    (hacquire : o = .acquireDecrypt → 0 < s.decryptPermits)
    (hjoin : ∀ task, o = .joinBlocking task → task ∉ s.running) :
    ∃ x s', s.perform ttl o x s' := by
  cases o with
  | getFromCache key => exact ⟨_, _, rfl⟩
  | tryAdmit =>
    by_cases hfree : 0 < s.admitPermits
    · exact ⟨true, { s with admitPermits := s.admitPermits - 1 }, by simp [Shared.perform, hfree]⟩
    · exact ⟨false, s, by simp [Shared.perform, hfree]⟩
  | acquireDecrypt => exact ⟨(), _, hacquire rfl, rfl⟩
  | spawnBlocking => exact ⟨_, _, rfl, rfl⟩
  | joinBlocking task => exact ⟨(), _, hjoin task rfl, rfl⟩
  | v2CacheGet id => exact ⟨_, _, rfl, rfl⟩
  | v2SealCacheGet id => exact ⟨_, _, rfl, rfl⟩
  | panic p => exact absurd trivial hpanic
  | newUuid => exact ⟨"", _, rfl⟩
  | utcNow => exact ⟨"", _, rfl⟩
  | keyPairGen => exact ⟨⟨.zero 32, .zero 32⟩, _, rfl⟩
  | nonceGen => exact ⟨.zero 24, _, rfl⟩
  | isAllowedWithPermission chain acp handle => exact ⟨.timeout, _, rfl⟩
  | isPubliclyAllowed chain handle => exact ⟨.timeout, _, rfl⟩
  | getCommitment version handle => exact ⟨.timeout, _, rfl⟩
  | getStoredCt hash => exact ⟨.sendError true "", _, rfl⟩
  | _ => exact ⟨(), _, rfl⟩

/-- Where no work is left, no closure runs, and a request without its response waits for a CPU
permit while none is free. -/
theorem stuck_cases (hc : Reachable (serve st) s₀ c) (hs : ∀ c', ¬ Work closures c c') :
    c.state.running = [] ∧ ∀ {pid : ℕ} {t : Thread sig Request Response}, c.threads pid = some t →
      (∃ resp, t.rest = .pure resp)
        ∨ (c.state.decryptPermits = 0
          ∧ ∃ k : Unit → Task Response, t.rest = .op .acquireDecrypt k) := by
  have hidle : c.state.running = [] := by
    by_contra hne
    obtain ⟨task, htask⟩ := List.exists_mem_of_ne_nil _ hne
    have hpos := List.length_pos_of_mem htask
    refine hs _ (.env (.finish task htask) ?_)
    simp only [closures, List.length_erase_of_mem htask]
    omega
  refine ⟨hidle, fun {pid t} ht => ?_⟩
  rcases hr : t.rest with resp | ⟨o, k⟩ | ⟨p, q⟩
  · exact .inl ⟨resp, rfl⟩
  · have hcalm := (calm_serve st t.job).steps (hc.thread ht)
    rw [hr] at hcalm
    cases hcalm with
    | op hpanic _ =>
      by_cases hwait : o = .acquireDecrypt ∧ c.state.decryptPermits = 0
      · obtain ⟨rfl, hnone⟩ := hwait
        exact .inr ⟨hnone, k, rfl⟩
      · obtain ⟨x, s', hperf⟩ := perform_enabled ttl c.state hpanic
          (fun ho => Nat.pos_of_ne_zero fun h0 => hwait ⟨ho, h0⟩)
          (fun task _ => by rw [hidle]; exact List.not_mem_nil)
        exact absurd (.perform ht hr hperf) (hs _)
  · exact absurd (.left ht hr) (hs _)

/-- A request that holds a CPU permit does not wait for another. -/
theorem not_waiting_of_starting (hc : Reachable (serve st) s₀ c) {pid : ℕ}
    (hpid : pid ∈ starting c) {t : Thread sig Request Response} (ht : c.threads pid = some t)
    {k : Unit → Task Response} : t.rest ≠ .op .acquireDecrypt k := by
  intro hr
  obtain ⟨t', ht', hholds⟩ := (mem_holding hc.poolOk).1 hpid
  obtain rfl : t' = t := Option.some.inj (ht'.symm.trans ht)
  have hsteps := hc.thread ht
  rw [hr] at hsteps
  have hmost := (repaysPermit_serve t'.job).most (hsteps.snoc ())
  have hone : List.countP (Shared.isOp .acquireDecrypt) [⟨.acquireDecrypt, ()⟩] = 1 := by
    simp [Shared.isOp]
  rw [List.countP_append, hone] at hmost
  unfold Holds at hholds
  omega

/-- Where no work is left, every request has its response. -/
theorem stuck_done (hc : Reachable (serve st) s₀ c) (hpos : 0 < s₀.decryptPermits)
    (hs : ∀ c', ¬ Work closures c c') :
    c.state.running = [] ∧ ∀ {pid : ℕ} {t : Thread sig Request Response}, c.threads pid = some t →
      ∃ resp, t.rest = .pure resp := by
  obtain ⟨hidle, hcases⟩ := stuck_cases hc hs
  refine ⟨hidle, fun ht => ?_⟩
  rcases hcases ht with hdone | ⟨hnone, -⟩
  · exact hdone
  -- all permits are out, and no closure has one, so a request holds one and could go on
  exfalso
  have hsum := permits_conserved hc
  rw [hidle, hnone, List.length_nil] at hsum
  have hheld : (starting c).card ≠ 0 := by omega
  obtain ⟨pid, hpid⟩ := Finset.card_pos.1 (Nat.pos_of_ne_zero hheld)
  obtain ⟨t, ht, hunfinished⟩ := hc.holding_unfinished repaysPermit_serve hpid
  rcases hcases ht with ⟨resp, hr⟩ | ⟨-, k, hr⟩
  · exact hunfinished resp hr
  · exact not_waiting_of_starting hc hpid ht hr

/-- Where every request has its response and no closure runs, every slot and permit is free. -/
theorem done_free (hc : Reachable (serve st) s₀ c) (h₀ : s₀.running = [])
    (hidle : c.state.running = [])
    (hdone : ∀ {pid : ℕ} {t : Thread sig Request Response}, c.threads pid = some t →
      ∃ resp, t.rest = .pure resp) :
    c.state.admitPermits = s₀.admitPermits ∧ c.state.decryptPermits = s₀.decryptPermits := by
  have hnone : ∀ {take give : Event sig → Bool}, (∀ req, Repays take give 1 (serve st req)) →
      (c.holding take give).card = 0 := by
    intro take give hp
    refine Finset.card_eq_zero.2 (Finset.eq_empty_of_forall_notMem fun pid hpid => ?_)
    obtain ⟨t, ht, hunfinished⟩ := hc.holding_unfinished hp hpid
    obtain ⟨resp, hr⟩ := hdone ht
    exact hunfinished resp hr
  have hslots := slots_conserved hc
  have hpermits := permits_conserved hc
  have hfetch : (inFetch c).card = 0 := hnone repaysSlot_serve
  have hstart : (starting c).card = 0 := hnone repaysPermit_serve
  rw [hidle, h₀, List.length_nil] at hpermits
  omega

end Stuck

/-- In every endless schedule of requests, from every state they reach, whatever the registry, the
chains and the store answer and whichever requests are dropped: when no request comes any more, and
what can go on does at some time go on, there is a point from which on every request has its
response, no closure runs, and every admission slot and CPU permit is free. So no request is left
waiting for a permit, none waits for another in a circle, and none panics. -/
theorem requests_end (st : AppState) (ttl now parallelism : ℕ) (cache : Lru CommitKey CacheEntry)
    (d a : ℕ) {f : ℕ → Config (shared ttl) Request Response}
    (h₀ : Reachable (serve st) ((Shared.new now parallelism cache).withConcurrency d a) (f 0))
    (hf : Endless (serve st) closures f) {N : ℕ}
    (hN : ∀ n ≥ N, (f (n + 1)).next = (f n).next) :
    ∃ n₀, ∀ n ≥ n₀, (∀ pid t, (f n).threads pid = some t →
        ∃ resp, t.rest = .pure resp ∧ Run (serve st t.job) t.trace resp)
      ∧ (f n).state.running = [] ∧ (f n).state.admitPermits = max a 1
      ∧ (f n).state.decryptPermits = max d 1 := by
  obtain ⟨n₀, hsettled⟩ := hf.settles closures_le h₀ hN
  refine ⟨n₀, fun n hn => ?_⟩
  have hc := hf.reachable h₀ n
  have hpos : 0 < ((Shared.new now parallelism cache).withConcurrency d a).decryptPermits :=
    Nat.lt_of_lt_of_le Nat.one_pos (Nat.le_max_right d 1)
  obtain ⟨hidle, hdone⟩ := stuck_done hc hpos (hsettled n hn)
  refine ⟨fun pid t ht => ?_, hidle, done_free hc rfl hidle hdone⟩
  obtain ⟨resp, hr⟩ := hdone ht
  exact ⟨resp, hr, hc.run ht hr⟩

/-- The sample request waits for its closure, with the one CPU permit there is taken. -/
theorem requests_end_sample : ∃ f : ℕ → Config (shared 10) Request Response,
    (f 0).state.running = [0] ∧ (f 0).state.decryptPermits = 0
      ∧ ∃ n₀, ∀ n ≥ n₀, (∀ pid t, (f n).threads pid = some t →
          ∃ resp, t.rest = .pure resp ∧ Run (serve (sampleState false) t.job) t.trace resp)
        ∧ (f n).state.running = [] ∧ (f n).state.admitPermits = 1
        ∧ (f n).state.decryptPermits = 1 := by
  have hrun : Run (serve (sampleState false) (sampleRequest 1))
      (sampleStarted ++ [⟨.joinBlocking 0, ()⟩, ⟨.dropAdmit, ()⟩]) sampleResponse :=
    sample_serve false
  obtain ⟨p, hp, -⟩ := hrun.split
  obtain ⟨s, hs, hrunning, hfree⟩ : ∃ s, (shared 10).Performs sampleCaps sampleStarted s
      ∧ s.running = [0] ∧ s.decryptPermits = 0 :=
    ⟨_, .step rfl (.step ⟨rfl, rfl⟩ (.step rfl (.step rfl (.step rfl (.step rfl (.step rfl
      (.step ⟨Nat.succ_pos 0, rfl⟩ (.step ⟨rfl, rfl⟩ (.nil .refl))))))))), rfl, rfl⟩
  obtain ⟨c, hc, hstate, -, -⟩ := reachable_run hp hs
  obtain ⟨f, rfl, hf, hnext⟩ := exists_endless (serve (sampleState false)) closures
    (fun s => Shared.Env.tick (Shared.now s) le_rfl) c
  exact ⟨f, by rw [hstate, hrunning], by rw [hstate, hfree],
    requests_end (sampleState false) 10 0 1 sampleShared.cache 0 0 hc hf (N := 0)
      fun n _ => hnext n⟩

end Teecryptor
