import Teecryptor.Proofs.Soundness
import Teecryptor.Lib.Permits

/-!
# Admission slots and CPU permits

A request takes an admission slot for the whole of `fetch_decrypt`, and a CPU permit that its
closure takes along to the blocking pool. Neither is ever lost: the slots in the hands of requests
and the free ones add up to the cap, and so do the CPU permits with those of the closures running
(`caps_hold`).
-/

namespace Teecryptor

open Interact Interact.Prog Rust

/-! ## A request gives back what it takes -/

section Repays

variable {st : AppState} {handle : Handle} {hostChainId : UInt64} {acp : Option AcpData}
  {api : ApiVersion}

/-- A request takes at most one admission slot, and gives it back. -/
abbrev RepaysSlot {α : Type} : ℕ → Task α → Prop :=
  Repays Shared.isAdmitted (Shared.isOp .dropAdmit)

/-- A request takes at most one CPU permit, and passes it on to its closure. -/
abbrev RepaysPermit {α : Type} : ℕ → Task α → Prop :=
  Repays (Shared.isOp .acquireDecrypt) (Shared.isOp .spawnBlocking)

theorem isOp_of_part {o : Op} {e : Event sig} (h : ¬ Of o.part e) : Shared.isOp o e = false := by
  unfold Shared.isOp
  rw [decide_eq_false_iff_not]
  rintro rfl
  exact h rfl

theorem isAdmitted_of_part {e : Event sig} (h : ¬ Of .admission e) :
    Shared.isAdmitted e = false := by
  unfold Shared.isAdmitted
  split
  · exact absurd rfl h
  · rfl

theorem repaysPermit_of_only {α : Type} {p : Task α}
    (h : Always (Only fun e => ¬ Of .decryption e) p) : RepaysPermit 0 p :=
  repays_of_only h (fun _ he => isOp_of_part he) fun _ he => isOp_of_part he

theorem always_not_of {α : Type} {x : Task α} {p p' : Part} (h : Always (Only (Of p)) x)
    (hne : p ≠ p') : Always (Only fun e => ¬ Of p' e) x :=
  h.mono fun _ ho => ho.mono fun _ he => he.ne hne

theorem countP_admitted {tr : Trace sig} (h : Only (fun e => ¬ Of .admission e) tr) :
    tr.countP Shared.isAdmitted = 0 ∧ tr.countP (Shared.isOp .dropAdmit) = 0 :=
  ⟨countP_of_only h fun _ he => isAdmitted_of_part he, countP_of_only h fun _ he => isOp_of_part he⟩

/-- How far a partial run of `fetch_decrypt` is with its admission. -/
theorem steps_fetchDecrypt {tr : Trace sig} {p : Task (Except Response (U256 × EncryptionType))}
    (h : Steps (fetchDecrypt st handle hostChainId acp api).run tr p) :
    tr = [] ∨ tr = [⟨.tryAdmit, false⟩]
      ∨ ∃ tr' p', Steps (admitted st handle hostChainId acp api).run tr' p'
        ∧ (tr = ⟨.tryAdmit, true⟩ :: tr' ∨ tr = ⟨.tryAdmit, true⟩ :: (tr' ++ [⟨.dropAdmit, ()⟩])) := by
  rcases steps_attemptBind h with rfl | ⟨_ | _, tr₁, rfl, h₁⟩
  · exact .inl rfl
  · obtain rfl := steps_pure h₁
    exact .inr (.inl rfl)
  · refine .inr (.inr ?_)
    rcases steps_exceptBind h₁ with ⟨p', h₂⟩ | ⟨tr₂, tr₃, out, rfl, h₂, h₃⟩
    · rw [ExceptT.run_lift] at h₂
      rcases steps_bind h₂ with ⟨p'', hs, -⟩ | ⟨tr₂, tr₃, out, rfl, hs, hnil⟩
      · exact ⟨tr₁, p'', hs, .inl rfl⟩
      · obtain rfl := steps_pure hnil
        exact ⟨tr₂, _, hs, .inl (by rw [List.append_nil])⟩
    · have h₂ := run_lift_ok.1 h₂
      rcases steps_attemptBind h₃ with rfl | ⟨x, tr₄, rfl, h₄⟩
      · exact ⟨tr₂, _, h₂, .inl (by rw [List.append_nil])⟩
      · obtain rfl := steps_pure h₄
        exact ⟨tr₂, _, h₂, .inr rfl⟩

theorem repaysSlot_fetchDecrypt :
    RepaysSlot 1 (fetchDecrypt st handle hostChainId acp api).run where
  most := by
    intro tr p h
    rcases steps_fetchDecrypt h with rfl | rfl | ⟨tr', p', hs, hends⟩
    · simp
    · simp [Shared.isAdmitted]
    have ho := only_admitted _ _ hs
    rcases hends with rfl | rfl
    · simp [List.countP_cons, Shared.isAdmitted, countP_admitted ho]
    · simp [List.countP_cons, Shared.isAdmitted, countP_admitted ho]
  part := by
    intro tr p h
    rcases steps_fetchDecrypt h with rfl | rfl | ⟨tr', p', hs, hends⟩
    · simp
    · simp [Shared.isAdmitted, Shared.isOp]
    have ho := only_admitted _ _ hs
    rcases hends with rfl | rfl
    · simp [List.countP_cons, Shared.isAdmitted, Shared.isOp, countP_admitted ho]
    · simp [List.countP_cons, Shared.isAdmitted, Shared.isOp, countP_admitted ho]
  whole := by
    intro tr r h
    rcases run_fetchDecrypt.1 h with ⟨rfl, -⟩ | ⟨tr', rfl, h'⟩
    · rfl
    · have ho := only_admitted.run h'
      simp [List.countP_cons, Shared.isAdmitted, Shared.isOp, countP_admitted ho]

theorem steps_runGated {ε α : Type} {closure : Exec ε α} {tr : Trace sig}
    {p : Task (Except Panic (Except ε α))} (h : Steps (runGated closure) tr p) :
    tr = [] ∨ tr = [⟨.acquireDecrypt, ()⟩] ∨ ∃ task : ℕ,
      tr = [⟨.acquireDecrypt, ()⟩, ⟨.spawnBlocking, task⟩]
      ∨ tr = [⟨.acquireDecrypt, ()⟩, ⟨.spawnBlocking, task⟩, ⟨.joinBlocking task, ()⟩] := by
  cases h with
  | refl => exact .inl rfl
  | op h =>
    cases h with
    | refl => exact .inr (.inl rfl)
    | @op _ _ task _ _ h =>
      refine .inr (.inr ⟨task, ?_⟩)
      cases h with
      | refl => exact .inl rfl
      | op h =>
        obtain rfl := steps_pure h
        exact .inr rfl

theorem repaysPermit_runGated {ε α : Type} (closure : Exec ε α) :
    RepaysPermit 1 (runGated closure) where
  most := by
    intro tr p h
    rcases steps_runGated h with rfl | rfl | ⟨task, rfl | rfl⟩ <;> simp [Shared.isOp]
  part := by
    intro tr p h
    rcases steps_runGated h with rfl | rfl | ⟨task, rfl | rfl⟩ <;> simp [Shared.isOp]
  whole := by
    intro tr r h
    obtain ⟨x, tr₁, rfl, h₁⟩ := run_performBind.1 h
    obtain ⟨task, tr₂, rfl, h₂⟩ := run_performBind.1 h₁
    obtain ⟨y, tr₃, rfl, h₃⟩ := run_performBind.1 h₂
    obtain ⟨rfl, -⟩ := run_pure.1 h₃
    simp [Shared.isOp]

theorem repaysPermit_decryptServed (ct : FheCiphertext) :
    RepaysPermit 1 (decryptServed st handle api ct).run := by
  have hmeta : RepaysPermit 0 (checkMetadata st handle api ct).run := by
    refine repays_of_only (Q := fun e : Event sig => ∃ line, e.1 = Op.log line) ?_ ?_ ?_
    · have hO := mixes_only fun e : Event sig => ∃ line, e.1 = Op.log line
      unfold checkMetadata
      simp only
      split
      · exact always_throw hO _
      split
      · exact always_throw hO _
      split
      · exact hO.exceptBind (only_attempt fun x => ⟨_, rfl⟩) fun x => always_throw hO _
      split
      · exact hO.exceptBind (only_attempt fun x => ⟨_, rfl⟩) fun x => always_throw hO _
      · exact always_exceptPure hO _
    · rintro ⟨o, x⟩ ⟨line, rfl⟩
      simp [Shared.isOp]
    · rintro ⟨o, x⟩ ⟨line, rfl⟩
      simp [Shared.isOp]
  exact hmeta.exceptBind fun ty => Repays.exceptBind (m := 1) (n := 0)
    ((repaysPermit_runGated _).lift.exceptBind fun r => repays_pure _) fun pt => repays_pure _

theorem repaysPermit_fetchDecrypt :
    RepaysPermit 1 (fetchDecrypt st handle hostChainId acp api).run := by
  have hadmission : ∀ {o : Op}, o.part = .admission →
      RepaysPermit 0 (attempt o : Attempt Response o.Ans).run := by
    intro o ho
    exact repaysPermit_of_only
      (always_not_of (p := .admission) (only_attempt fun x => ho) (by decide))
  have hgates : RepaysPermit 0 (gates st handle hostChainId acp api).run :=
    repaysPermit_of_only (always_gates (mixes_only _) (always_not_of only_acpGate (by decide))
      (always_not_of only_commitmentGate (by decide)))
  have hfetch : RepaysPermit 0 (fetchRow st handle api).run :=
    repaysPermit_of_only (always_not_of only_fetchRow (by decide))
  have hcheck : ∀ expected data, RepaysPermit 0
      (integrityGate st handle hostChainId api expected data).run := fun expected data =>
    repaysPermit_of_only (always_not_of (only_integrityGate expected data) (by decide))
  have hadmitted : RepaysPermit 1 (admitted st handle hostChainId acp api).run :=
    hgates.exceptBind fun expected => hfetch.exceptBind fun ct =>
      Repays.exceptBind (m := 0) (repays_pure _) fun _ => (hcheck _ _).exceptBind fun _ =>
        repaysPermit_decryptServed ct
  refine (hadmission rfl).exceptBind (n := 1) fun permit => ?_
  split
  · exact hadmitted.lift.exceptBind fun out => (hadmission rfl).exceptBind fun _ => repays_pure _
  · exact (repays_pure _).mono (by decide)

/-- What `fetch_decrypt` repays, and the code around it does not touch, a request repays. -/
theorem repays_serve {take give : Event sig → Bool} (ht : ∀ e, Of .rest e → take e = false)
    (hg : ∀ e, Of .rest e → give e = false)
    (hfetch : ∀ handle hostChainId acp api,
      Repays take give 1 (fetchDecrypt st handle hostChainId acp api).run) (req : Request) :
    Repays take give 1 (serve st req) := by
  rcases hq : req.ask with _ | q
  · exact (repays_of_only (only_poll hq (fun _ _ => rfl) fun _ _ => rfl) ht hg).mono (by decide)
  · rw [serve_eq st hq]
    refine Repays.bind (m := 1) (n := 0) ((repays_of_only rest_enter ht hg).exceptBind fun e =>
      (hfetch _ _ _ _).exceptBind fun out => repays_of_only (rest_finish _ _ _ _) ht hg) fun r => ?_
    rcases r with resp | resp
    · exact repays_pure _
    · exact repays_pure _

theorem repaysSlot_serve (req : Request) : RepaysSlot 1 (serve st req) :=
  repays_serve (fun _ he => isAdmitted_of_part (he.ne (by decide)))
    (fun _ he => isOp_of_part (he.ne (by decide))) (fun _ _ _ _ => repaysSlot_fetchDecrypt) req

theorem repaysPermit_serve (req : Request) : RepaysPermit 1 (serve st req) :=
  repays_serve (fun _ he => isOp_of_part (he.ne (by decide)))
    (fun _ he => isOp_of_part (he.ne (by decide))) (fun _ _ _ _ => repaysPermit_fetchDecrypt) req

end Repays

/-! ## What the process does with them -/

section Keeps

variable {ttl : ℕ} {s s' : Shared}

theorem perform_getFromCache {key : CommitKey} {x : Option CommitHash}
    (h : s.perform ttl (.getFromCache key) x s') : ∃ cache, s' = { s with cache } := by
  have hs : s' = (s.getFromCache ttl key).2 := congrArg Prod.snd h
  rw [hs]
  exact getFromCache_frame ttl s key

/-- An operation leaves the closures alone, or starts the next one. -/
theorem perform_running {o : Op} {x : o.Ans} (h : s.perform ttl o x s') :
    (s'.running = s.running ∧ s'.nextTask = s.nextTask)
      ∨ (s'.running = s.nextTask :: s.running ∧ s'.nextTask = s.nextTask + 1) := by
  cases o with
  | tryAdmit =>
    simp only [Shared.perform] at h
    split_ifs at h
    · rw [h.2]
      exact .inl ⟨rfl, rfl⟩
    · rw [h.2]
      exact .inl ⟨rfl, rfl⟩
  | getFromCache key =>
    obtain ⟨cache, rfl⟩ := perform_getFromCache h
    exact .inl ⟨rfl, rfl⟩
  | spawnBlocking =>
    obtain ⟨rfl, rfl⟩ := h
    exact .inr ⟨rfl, rfl⟩
  | panic p => exact x.elim
  | _ =>
    simp only [Shared.perform] at h
    simp [h, Shared.putInCache, Shared.evictFromCache]

theorem keeps_slots (ttl : ℕ) : (shared ttl).Keeps Shared.isAdmitted (Shared.isOp .dropAdmit)
    Shared.admitPermits where
  perform := by
    intro s s' o x h
    cases o with
    | tryAdmit =>
      simp only [shared, Shared.perform] at h
      split_ifs at h with hfree
      · obtain ⟨rfl, rfl⟩ := h
        simp only [Shared.isAdmitted, Shared.isOp]
        simp
        omega
      · obtain ⟨rfl, rfl⟩ := h
        simp [Shared.isAdmitted, Shared.isOp]
    | getFromCache key =>
      obtain ⟨cache, rfl⟩ := perform_getFromCache h
      simp [Shared.isAdmitted, Shared.isOp]
    | panic p => exact x.elim
    | _ =>
      simp only [shared, Shared.perform] at h
      simp [h, Shared.isAdmitted, Shared.isOp, Shared.putInCache, Shared.evictFromCache]
  env := by
    rintro s s' (⟨now, -⟩ | ⟨task, -⟩)
    · rfl
    · rfl
  release := fun _ _ => rfl

/-- The CPU permits that no request holds: the free ones, and those of the closures running. -/
def Shared.permitsOut (s : Shared) : ℕ := s.decryptPermits + s.running.length

theorem keeps_permits (ttl : ℕ) : (shared ttl).Keeps (Shared.isOp .acquireDecrypt)
    (Shared.isOp .spawnBlocking) Shared.permitsOut where
  perform := by
    intro s s' o x h
    unfold Shared.permitsOut
    cases o with
    | tryAdmit =>
      simp only [shared, Shared.perform] at h
      split_ifs at h with hfree
      · simp [h.2, Shared.isOp]
      · simp [h.2, Shared.isOp]
    | getFromCache key =>
      obtain ⟨cache, rfl⟩ := perform_getFromCache h
      simp [Shared.isOp]
    | acquireDecrypt =>
      obtain ⟨hfree, rfl⟩ := h
      simp [Shared.isOp]
      omega
    | spawnBlocking =>
      obtain ⟨-, rfl⟩ := h
      simp [Shared.isOp]
      omega
    | panic p => exact x.elim
    | _ =>
      simp only [shared, Shared.perform] at h
      simp [h, Shared.isOp, Shared.putInCache, Shared.evictFromCache]
  env := by
    rintro s s' (⟨now, -⟩ | ⟨task, htask⟩)
    · rfl
    · have hpos := List.length_pos_of_mem htask
      simp only [Shared.permitsOut, List.length_erase_of_mem htask]
      omega
  release := by
    intro s tr
    simp only [Shared.permitsOut, shared, Shared.release]
    omega

end Keeps

/-! ## Shedding -/

section Shed

variable {st : AppState} {req : Request} {tr : Trace sig} {resp : Response}

/-- The response sheds the request as overloaded. -/
def Response.IsShed (r : Response) : Prop := r.outcome = some RetryReason.overloaded.asStr

theorem err_not_shed (api : ApiVersion) (status : ℕ) (code : String)
    (h : (status, code) ∈ apiErrors) : ¬ (api.err status code).IsShed := by
  intro hshed
  have hne : ∀ code ∈ errorCodes, code ≠ RetryReason.overloaded.asStr := by decide
  exact hne code (code_mem_errorCodes h) (Option.some.inj hshed)

theorem retryable_not_shed (api : ApiVersion) :
    ∀ reason ≠ .overloaded, ¬ (api.retryable reason).IsShed := by
  intro reason hne hshed
  cases api <;> cases reason
  all_goals first
    | exact hne rfl
    | exact absurd (Option.some.inj hshed) (by decide)

theorem not_mem_of_only {p : Part} (hp : p ≠ .admission) (h : Only (Of p) tr) (x : Bool) :
    (⟨.tryAdmit, x⟩ : Event sig) ∉ tr := fun hm => (h _ hm).ne hp rfl

/-- A request is shed when it finds no slot free, and only then. -/
theorem serve_shed (h : Run (serve st req) tr resp) :
    (resp.IsShed ∧ (⟨.tryAdmit, false⟩ : Event sig) ∈ tr ∧ (⟨.tryAdmit, true⟩ : Event sig) ∉ tr)
      ∨ ¬ resp.IsShed := by
  rcases hq : req.ask with _ | q
  · refine .inr ?_
    rcases serve_of_ask_none hq h with ⟨api, rejection, rfl⟩ | ⟨-, -, hout⟩
    · exact fun hshed => absurd (Option.some.inj hshed) (by decide)
    · unfold Response.IsShed
      rw [hout]
      simp
  · have herr := err_not_shed q.api
    rcases (run_serve hq).1 h with hE | ⟨trE, tr', e, rfl, hE, hF | ⟨trF, trZ, out, rfl, hF, hZ | hZ⟩⟩
    · exact .inr (stops_enter (P := fun r => ¬ r.IsShed) herr _ _ hE)
    · rcases run_fetchDecrypt.1 hF with ⟨rfl, hr⟩ | ⟨trA, rfl, hA⟩
      · cases hr
        have hmem := not_mem_of_only (by decide) (rest_enter.run hE) true
        refine .inl ⟨?_, by simp, by simp [hmem]⟩
        rcases q.api <;> rfl
      · exact .inr (stops_admitted (P := fun r => ¬ r.IsShed) herr (retryable_not_shed q.api)
          (fun hshed => absurd (Option.some.inj hshed) (by decide)) _ _ hA)
    · refine .inr ?_
      unfold Response.IsShed
      rw [finish_outcome hZ]
      simp
    · exact .inr (stops_finish (P := fun r => ¬ r.IsShed) herr _ _ _ hZ)

end Shed

/-! ## The caps -/

section Caps

variable {st : AppState} {ttl : ℕ} {s₀ : Shared} {c c' : Config (shared ttl) Request Response}

/-- The requests inside `fetch_decrypt` past their admission: each holds a slot. -/
def inFetch (c : Config (shared ttl) Request Response) : Finset ℕ :=
  c.holding Shared.isAdmitted (Shared.isOp .dropAdmit)

/-- The requests with a CPU permit in hand, about to start their closure. -/
def starting (c : Config (shared ttl) Request Response) : Finset ℕ :=
  c.holding (Shared.isOp .acquireDecrypt) (Shared.isOp .spawnBlocking)

theorem slots_conserved (hc : Reachable (serve st) s₀ c) :
    (inFetch c).card + c.state.admitPermits = s₀.admitPermits :=
  hc.conserved (keeps_slots ttl) repaysSlot_serve

theorem permits_conserved (hc : Reachable (serve st) s₀ c) :
    (starting c).card + (c.state.decryptPermits + c.state.running.length)
      = s₀.decryptPermits + s₀.running.length :=
  hc.conserved (keeps_permits ttl) repaysPermit_serve

/-- Closures are told apart by their numbers. -/
theorem running_nodup (h₀ : s₀.running = []) (hc : Reachable (serve st) s₀ c) :
    c.state.running.Nodup ∧ ∀ task ∈ c.state.running, task < c.state.nextTask := by
  refine hc.invariant (I := fun (s : Shared) _ => s.running.Nodup
    ∧ ∀ task ∈ s.running, task < s.nextTask) (by simp [h₀]) ?_ ?_ fun s hist tr ih => ih
  · intro hist e ih hp
    rcases perform_running hp with ⟨hrun, hnext⟩ | ⟨hrun, hnext⟩
    · rwa [hrun, hnext]
    · rw [hrun, hnext]
      have hfresh : e.pre.nextTask ∉ e.pre.running := fun hm => absurd (ih.2 _ hm) (by omega)
      refine ⟨List.nodup_cons.2 ⟨hfresh, ih.1⟩, fun task hm => ?_⟩
      rcases List.mem_cons.1 hm with rfl | hm
      · omega
      · exact Nat.lt_succ_of_lt (ih.2 task hm)
  · rintro s s' hist ih (⟨now, -⟩ | ⟨task, -⟩)
    · exact ih
    · exact ⟨ih.1.erase task, fun task' hm => ih.2 task' (List.mem_of_mem_erase hm)⟩

/-- A closure runs on, whatever happens to the request that started it, until it finishes and
frees its permit. -/
theorem step_running (h : Step (serve st) c c') {task : ℕ} (htask : task ∈ c.state.running) :
    task ∈ c'.state.running ∨ (c'.threads = c.threads
      ∧ c'.state.running = c.state.running.erase task
      ∧ c'.state.decryptPermits = c.state.decryptPermits + 1) := by
  cases h with
  | spawn i => exact .inl htask
  | @perform pid t o k x s ht hr hs =>
    have hmem : task ∈ Shared.running s := by
      rcases perform_running hs with ⟨hrun, -⟩ | ⟨hrun, -⟩
      · rwa [hrun]
      · rw [hrun]
        exact List.mem_cons_of_mem _ htask
    exact .inl hmem
  | left => exact .inl htask
  | right => exact .inl htask
  | env hs =>
    rcases hs with ⟨now, -⟩ | ⟨task', -⟩
    · exact .inl htask
    · by_cases heq : task = task'
      · subst heq
        exact .inr ⟨rfl, rfl, rfl⟩
      · exact .inl ((List.mem_erase_of_ne heq).2 htask)
  | drop ht => exact .inl htask

/-- A request whose closure has started has no CPU permit to give back. -/
theorem drop_started (hc : Reachable (serve st) s₀ c) {pid : ℕ} {t : Thread sig Request Response}
    (ht : c.threads pid = some t) {task : ℕ}
    (hspawn : (⟨.spawnBlocking, task⟩ : Event sig) ∈ t.trace) :
    (c.drop pid t).state.running = c.state.running
      ∧ (c.drop pid t).state.decryptPermits = c.state.decryptPermits := by
  have hmost := (repaysPermit_serve t.job).most (hc.thread ht)
  have hpos : 0 < t.trace.countP (Shared.isOp .spawnBlocking) :=
    List.countP_pos_iff.2 ⟨_, hspawn, by simp [Shared.isOp]⟩
  refine ⟨rfl, ?_⟩
  show c.state.decryptPermits + (t.trace.countP (Shared.isOp .acquireDecrypt)
    - t.trace.countP (Shared.isOp .spawnBlocking)) = c.state.decryptPermits
  omega

/-- A request that waits for a CPU permit is not refused: it goes on waiting, its future is
dropped, or it takes a permit that is free. -/
theorem step_waiting (hc : Reachable (serve st) s₀ c) (h : Step (serve st) c c') {pid : ℕ}
    {t : Thread sig Request Response} (ht : c.threads pid = some t) {k : Unit → Task Response}
    (hr : t.rest = .op .acquireDecrypt k) :
    c'.threads pid = some t ∨ c'.threads pid = none ∨ (0 < c.state.decryptPermits
      ∧ c'.threads pid = some ⟨t.job, t.trace ++ [⟨.acquireDecrypt, ()⟩], k ()⟩) := by
  rcases h.at_op hc.poolOk ht hr with hsame | hgone | ⟨x, hs, hnext⟩
  · exact .inl hsame
  · exact .inr (.inl hgone)
  · exact .inr (.inr ⟨hs.1, hnext⟩)

/-- The state just before a request found no slot free: every slot was held. -/
theorem shed_full (hc : Reachable (serve st) s₀ c) {pid : ℕ} {t : Thread sig Request Response}
    (ht : c.threads pid = some t) (hshed : (⟨.tryAdmit, false⟩ : Event sig) ∈ t.trace) :
    ∃ (c₁ : Config (shared ttl) Request Response) (e : Entry (shared ttl) Request)
      (rest : List (Entry (shared ttl) Request)), Reachable (serve st) s₀ c₁
        ∧ c.hist = c₁.hist ++ e :: rest ∧ e.pid = pid ∧ e.event = ⟨.tryAdmit, false⟩
        ∧ (inFetch c₁).card = s₀.admitPermits := by
  obtain ⟨e, he, hpid, hev, hperf⟩ := hc.performs_trace ht hshed
  obtain ⟨h₁, rest, hsplit⟩ := List.append_of_mem he
  obtain ⟨c₁, hc₁, hhist, hstate, -⟩ := hc.before hsplit
  refine ⟨c₁, e, rest, hc₁, by rw [hhist, hsplit], hpid, hev, ?_⟩
  have hp : Shared.perform ttl e.pre .tryAdmit false e.post := hperf
  have hfull : c₁.state.admitPermits = 0 := by
    rw [hstate]
    simp only [Shared.perform] at hp
    split_ifs at hp with hfree
    · cases hp.1
    · exact Nat.eq_zero_of_not_pos hfree
  have hsum := slots_conserved hc₁
  omega

end Caps

/-- For every `with_concurrency(d, a)`, in every state that requests reach in whatever order they
run, fail, panic or are dropped: at most `a` of them are past admission and at most `d` closures
run; a request is shed only if all `a` slots were held when it came, and an admitted one is not
shed, nor refused while it waits for a CPU permit; a closure keeps its permit until it finishes,
also when its request is dropped; and once all is done, every slot and permit is free again. -/
theorem caps_hold (st : AppState) (ttl now parallelism : ℕ) (cache : Lru CommitKey CacheEntry)
    (d a : ℕ) {c : Config (shared ttl) Request Response}
    (hc : Reachable (serve st) ((Shared.new now parallelism cache).withConcurrency d a) c) :
    (inFetch c).card ≤ max a 1
    ∧ (c.state.running.length ≤ max d 1 ∧ c.state.running.Nodup)
    ∧ (∀ pid t resp, c.threads pid = some t → t.rest = .pure resp → resp.IsShed →
      ∃ (c₁ : Config (shared ttl) Request Response) (e : Entry (shared ttl) Request)
        (rest : List (Entry (shared ttl) Request)),
        Reachable (serve st) ((Shared.new now parallelism cache).withConcurrency d a) c₁
          ∧ c.hist = c₁.hist ++ e :: rest ∧ e.pid = pid ∧ e.event = ⟨.tryAdmit, false⟩
          ∧ (inFetch c₁).card = max a 1)
    ∧ (∀ pid t, c.threads pid = some t → (⟨.tryAdmit, true⟩ : Event sig) ∈ t.trace →
      (∀ resp, t.rest = .pure resp → ¬ resp.IsShed)
      ∧ ∀ k : Unit → Task Response, t.rest = .op .acquireDecrypt k → ∀ c', Step (serve st) c c' →
        c'.threads pid = some t ∨ c'.threads pid = none ∨ (0 < c.state.decryptPermits
          ∧ c'.threads pid = some ⟨t.job, t.trace ++ [⟨.acquireDecrypt, ()⟩], k ()⟩))
    ∧ (∀ pid t task, c.threads pid = some t → (⟨.spawnBlocking, task⟩ : Event sig) ∈ t.trace →
      (c.drop pid t).state.running = c.state.running
        ∧ (c.drop pid t).state.decryptPermits = c.state.decryptPermits)
    ∧ (∀ task ∈ c.state.running, ∀ c', Step (serve st) c c' → task ∈ c'.state.running
      ∨ (c'.threads = c.threads ∧ c'.state.running = c.state.running.erase task
        ∧ c'.state.decryptPermits = c.state.decryptPermits + 1))
    ∧ ((∀ pid t, c.threads pid = some t → ∃ resp, t.rest = .pure resp) → c.state.running = [] →
      c.state.admitPermits = max a 1 ∧ c.state.decryptPermits = max d 1) := by
  have hslots : (inFetch c).card + c.state.admitPermits = max a 1 := slots_conserved hc
  have hpermits : (starting c).card + (c.state.decryptPermits + c.state.running.length)
      = max d 1 := permits_conserved hc
  refine ⟨by omega, ⟨by omega, (running_nodup rfl hc).1⟩, ?_, ?_, ?_, ?_, ?_⟩
  · intro pid t resp ht hr hshed
    rcases serve_shed (hc.run ht hr) with ⟨-, hmem, -⟩ | hnot
    · exact shed_full hc ht hmem
    · exact absurd hshed hnot
  · intro pid t ht hadmit
    refine ⟨fun resp hr hshed => ?_, fun k hr c' hs => step_waiting hc hs ht hr⟩
    rcases serve_shed (hc.run ht hr) with ⟨-, -, hmem⟩ | hnot
    · exact hmem hadmit
    · exact hnot hshed
  · intro pid t task ht hspawn
    exact drop_started hc ht hspawn
  · intro task htask c' hs
    exact step_running hs htask
  · intro hdone hidle
    have hnone : ∀ {take give : Event sig → Bool}, (∀ req, Repays take give 1 (serve st req)) →
        c.holding take give = ∅ := by
      intro take give hp
      refine Finset.eq_empty_of_forall_notMem fun pid hpid => ?_
      obtain ⟨t, ht, hunfinished⟩ := hc.holding_unfinished hp hpid
      obtain ⟨resp, hr⟩ := hdone pid t ht
      exact hunfinished resp hr
    have hfetch : (inFetch c).card = 0 := Finset.card_eq_zero.2 (hnone repaysSlot_serve)
    have hstart : (starting c).card = 0 := Finset.card_eq_zero.2 (hnone repaysPermit_serve)
    rw [hidle, List.length_nil] at hpermits
    omega

/-- The sample request up to the start of its closure. -/
def sampleStarted : Trace sig :=
  ⟨.newUuid, "id"⟩ :: ⟨.tryAdmit, true⟩ :: (sampleGates ++
    [⟨.getStoredCt sampleHandle.asStr, sampleReply⟩, ⟨.acquireDecrypt, ()⟩,
      ⟨.spawnBlocking, (0 : ℕ)⟩])

def sampleCaps : Shared := (Shared.new 0 1 sampleShared.cache).withConcurrency 0 0

/-- The request is dropped while its closure runs, which keeps the one CPU permit. -/
theorem caps_hold_sample : ∃ c : Config (shared 10) Request Response,
    Reachable (serve (sampleState false)) sampleCaps c ∧ c.threads 0 = none
      ∧ c.state.running = [0] ∧ c.state.decryptPermits = 0 ∧ c.state.admitPermits = 1
      ∧ ∀ c', Step (serve (sampleState false)) c c' → 0 ∈ c'.state.running
        ∨ c'.state.decryptPermits = 1 := by
  have hrun : Run (serve (sampleState false) (sampleRequest 1))
      (sampleStarted ++ [⟨.joinBlocking 0, ()⟩, ⟨.dropAdmit, ()⟩]) sampleResponse :=
    sample_serve false
  obtain ⟨p, hp, -⟩ := hrun.split
  obtain ⟨s, hs, hrunning, hfree, hadmit⟩ : ∃ s, (shared 10).Performs sampleCaps sampleStarted s
      ∧ s.running = [0] ∧ s.decryptPermits = 0 ∧ s.admitPermits = 0 :=
    ⟨_, .step rfl (.step ⟨rfl, rfl⟩ (.step rfl (.step rfl (.step rfl (.step rfl (.step rfl
      (.step ⟨Nat.succ_pos 0, rfl⟩ (.step ⟨rfl, rfl⟩ (.nil .refl))))))))), rfl, rfl, rfl⟩
  obtain ⟨c, hc, hstate, -, ht⟩ := reachable_run hp hs
  have hdrop := hc.step (.drop ht)
  obtain ⟨-, -, -, -, hkept, -⟩ :=
    caps_hold (sampleState false) 10 0 1 sampleShared.cache 0 0 hc
  obtain ⟨hsame, hpermits⟩ := hkept 0 _ 0 ht (by simp [sampleStarted])
  obtain ⟨-, -, -, -, -, huntil, -⟩ :=
    caps_hold (sampleState false) 10 0 1 sampleShared.cache 0 0 hdrop
  rw [hstate, hrunning] at hsame
  rw [hstate, hfree] at hpermits
  have hslot : (c.drop 0 ⟨sampleRequest 1, sampleStarted, p⟩).state.admitPermits
      = c.state.admitPermits + 1 := rfl
  refine ⟨_, hdrop, by simp [Config.drop], hsame, hpermits, ?_, fun c' hstep => ?_⟩
  · rw [hslot, hstate, hadmit]
  · rcases huntil 0 (by rw [hsame]; simp) c' hstep with hmem | ⟨-, -, hfreed⟩
    · exact .inl hmem
    · exact .inr (by rw [hfreed, hpermits])

end Teecryptor
