import Teecryptor.Health
import Teecryptor.Lib.Cells

/-!
# The health state follows the probes

One task probes and stores; the gauges read while it does. What an atomic holds is the result of
the last probe that was stored, the log lines of a dependency are its results with the repeats left
out, and a verdict is made of values that the atoms held while it was taken.
-/

namespace Teecryptor

open Interact Interact.Prog Rust Health

variable {health : Health} {tr : Trace healthSig} {α β : Type}

/-! ## What an event says -/

/-- The atomic that a probe's result belongs to, with the result. -/
def probeOf (health : Health) : Event healthSig → Option (HealthCell × Bool)
  | ⟨.probeCtSource, r⟩ =>
    (health.named.findIdx? (· = ctSource)).map fun i => (.named i, r.isSuccess)
  | ⟨.getVersionStatus _ _ _, r⟩ =>
    (health.named.findIdx? (· = commitmentRegistry)).map fun i => (.named i, r.answered)
  | ⟨.getVersion chainId _, r⟩ =>
    (health.chains.findIdx? (·.1 = chainId)).map fun i => (.chain i, r.answered)
  | _ => none

def swapped : Event healthSig → Option (HealthCell × UInt8 × UInt8)
  | ⟨.swap cell new, old⟩ => some (cell, old, new)
  | _ => none

def logged : Event healthSig → Option (HealthLabel × Bool)
  | ⟨.log label isUp, _⟩ => some (label, isUp)
  | _ => none

section

variable (cell : HealthCell) (new old : UInt8) (label : HealthLabel) (isUp : Bool)

@[simp] theorem probeOf_swap :
    probeOf health (⟨.swap cell new, old⟩ : (o : HealthOp) × o.Ans) = none := rfl

@[simp] theorem probeOf_log :
    probeOf health (⟨.log label isUp, ()⟩ : (o : HealthOp) × o.Ans) = none := rfl

@[simp] theorem swapped_swap :
    swapped (⟨.swap cell new, old⟩ : (o : HealthOp) × o.Ans) = some (cell, old, new) := rfl

@[simp] theorem swapped_log :
    swapped (⟨.log label isUp, ()⟩ : (o : HealthOp) × o.Ans) = none := rfl

@[simp] theorem logged_swap :
    logged (⟨.swap cell new, old⟩ : (o : HealthOp) × o.Ans) = none := rfl

@[simp] theorem logged_log :
    logged (⟨.log label isUp, ()⟩ : (o : HealthOp) × o.Ans) = some (label, isUp) := rfl

end

/-- The label of an entry's log lines and series. -/
def labelOf (health : Health) : HealthCell → Option HealthLabel
  | .named i => health.named[i]?.map .dependency
  | .chain i => health.chains[i]?.map fun chain => .hostChainId chain.2

/-! ## What the probe loop keeps -/

/-- In `tr` the results of `d` were stored and the changes logged, but for at most one of them:
`stored` is what is still to be stored, and `log` to be logged. -/
structure Sync (health : Health) (d : HealthCell) (label : HealthLabel) (tr : Trace healthSig)
    (stored log : List UInt8) : Prop where
  results : (about (probeOf health) d tr).map code = (about swapped d tr).map (·.2) ++ stored
  logs : changed (about swapped d tr) = (about logged label tr).map code ++ log
  pending : stored.length + log.length ≤ 1

theorem sync_nil (d : HealthCell) (label : HealthLabel) : Sync health d label [] [] [] :=
  ⟨rfl, rfl, by simp⟩

theorem Sync.append {d : HealthCell} {label : HealthLabel} {tr' : Trace healthSig}
    {stored log : List UInt8} (h : Sync health d label tr [] [])
    (h' : Sync health d label tr' stored log) : Sync health d label (tr ++ tr') stored log where
  results := by
    have h₁ := h.results
    have h₂ := h'.results
    simp only [about_append, List.map_append, List.append_nil] at h₁ h₂ ⊢
    rw [h₁, h₂, List.append_assoc]
  logs := by
    have h₁ := h.logs
    have h₂ := h'.logs
    simp only [about_append, List.map_append, List.append_nil, changed_append] at h₁ h₂ ⊢
    rw [h₁, h₂, List.append_assoc]
  pending := h'.pending

/-- The code never stops, and is in step with the probes: up to one result or log line at any
moment, and altogether at its end. -/
structure Follows (health : Health) (x : ExceptT Panic (Prog healthSig) α) : Prop where
  part : ∀ {tr p'}, Steps x.run tr p' → ∀ d label, labelOf health d = some label →
    ∃ stored log, Sync health d label tr stored log
  whole : ∀ {tr r}, Run x.run tr r → (∃ a, r = .ok a)
    ∧ ∀ d label, labelOf health d = some label → Sync health d label tr [] []

theorem follows_pure (a : α) : Follows health (pure a) where
  part := by
    intro tr p' h d label _
    obtain rfl := steps_pure h
    exact ⟨[], [], sync_nil d label⟩
  whole := by
    intro tr r h
    obtain ⟨rfl, rfl⟩ := run_exceptPure.1 h
    exact ⟨⟨a, rfl⟩, fun d label _ => sync_nil d label⟩

theorem Follows.bind {x : ExceptT Panic (Prog healthSig) α}
    {f : α → ExceptT Panic (Prog healthSig) β} (hx : Follows health x)
    (hf : ∀ a, Follows health (f a)) : Follows health (x >>= f) where
  part := by
    intro tr p' h d label hl
    rcases steps_exceptBind h with ⟨p'', h⟩ | ⟨tr₁, tr₂, a, rfl, h₁, h₂⟩
    · exact hx.part h d label hl
    · obtain ⟨stored, log, hs⟩ := (hf a).part h₂ d label hl
      exact ⟨stored, log, ((hx.whole h₁).2 d label hl).append hs⟩
  whole := by
    intro tr r h
    rcases run_exceptBind.1 h with ⟨e, rfl, h₁⟩ | ⟨tr₁, tr₂, a, rfl, h₁, h₂⟩
    · obtain ⟨⟨a, ha⟩, -⟩ := hx.whole h₁
      cases ha
    · obtain ⟨hok, hs⟩ := (hf a).whole h₂
      exact ⟨hok, fun d label hl => ((hx.whole h₁).2 d label hl).append (hs d label hl)⟩

/-- A result that is taken, stored and done with. -/
theorem Follows.bind_bind {γ : Type} {x : ExceptT Panic (Prog healthSig) α}
    {f : α → ExceptT Panic (Prog healthSig) β} {g : β → ExceptT Panic (Prog healthSig) γ}
    (hx : Follows health (x >>= f)) (hg : ∀ b, Follows health (g b)) :
    Follows health (x >>= fun a => f a >>= g) := by
  rw [← bind_assoc]
  exact hx.bind hg

/-- An operation that is no probe, store or log line. -/
theorem sync_other {o : HealthOp} {x : o.Ans} (hp : probeOf health ⟨o, x⟩ = none)
    (hs : swapped ⟨o, x⟩ = none) (hlog : logged ⟨o, x⟩ = none) (d : HealthCell)
    (label : HealthLabel) : Sync health d label [⟨o, x⟩] [] [] where
  results := by simp [about_cons, hp, hs]
  logs := by simp [about_cons, hs, hlog, changed]
  pending := by simp

theorem follows_tick : Follows health (ExceptT.lift (healthCall .tick)) where
  part := by
    intro tr p' h d label _
    rw [ExceptT.run_lift] at h
    cases h with
    | refl => exact ⟨[], [], sync_nil d label⟩
    | op h =>
      obtain rfl := steps_pure h
      exact ⟨[], [], sync_other rfl rfl rfl d label⟩
  whole := by
    intro tr r h
    obtain ⟨x, rfl, hrun⟩ := run_lift.1 h
    obtain rfl := run_call.1 hrun
    exact ⟨⟨x, rfl⟩, fun d label _ => sync_other rfl rfl rfl d label⟩

/-- A probe whose result is stored. -/
def measured (o : HealthOp) (cell : HealthCell) (label : HealthLabel) (isUp : o.Ans → Bool) :
    HealthTask Unit :=
  .op o fun r => record cell label (isUp r)

theorem record_eq (cell : HealthCell) (label : HealthLabel) (isUp : Bool) :
    record cell label isUp = .op (.swap cell (code isUp)) fun old =>
      if old ≠ code isUp then .op (.log label isUp) .pure else .pure () := by
  simp only [record, transition, healthCall, bind_eq, pure_eq, Prog.call, Prog.bind,
    decide_eq_true_eq]

/-- How far a probe and its store can be. -/
inductive Measured (o : HealthOp) (cell : HealthCell) (label : HealthLabel) (isUp : o.Ans → Bool) :
    Trace healthSig → List UInt8 → List UInt8 → Prop
  | before : Measured o cell label isUp [] [] []
  | probed (r : o.Ans) : Measured o cell label isUp [⟨o, r⟩] [code (isUp r)] []
  | same (r : o.Ans) : Measured o cell label isUp
      [⟨o, r⟩, ⟨.swap cell (code (isUp r)), code (isUp r)⟩] [] []
  | stored (r : o.Ans) (old : UInt8) (h : old ≠ code (isUp r)) : Measured o cell label isUp
      [⟨o, r⟩, ⟨.swap cell (code (isUp r)), old⟩] [] [code (isUp r)]
  | logged (r : o.Ans) (old : UInt8) (h : old ≠ code (isUp r)) : Measured o cell label isUp
      [⟨o, r⟩, ⟨.swap cell (code (isUp r)), old⟩, ⟨.log label (isUp r), ()⟩] [] []

variable {o : HealthOp} {cell : HealthCell} {label : HealthLabel} {isUp : o.Ans → Bool}

theorem steps_measured {p' : HealthTask Unit} (h : Steps (measured o cell label isUp) tr p') :
    ∃ stored log, Measured o cell label isUp tr stored log
      ∧ ((∃ u, p' = .pure u) → stored = [] ∧ log = []) := by
  cases h with
  | refl => exact ⟨[], [], .before, fun _ => ⟨rfl, rfl⟩⟩
  | @op _ _ r _ _ h =>
    have h : Steps (record cell label (isUp r)) _ p' := h
    rw [record_eq] at h
    cases h with
    | refl => exact ⟨_, _, .probed r, fun ⟨u, hu⟩ => by cases hu⟩
    | @op _ _ old tr _ h =>
      have h : Steps (if old ≠ code (isUp r) then healthCall (.log label (isUp r)) else .pure ())
        _ p' := h
      split at h
      · next hne =>
        cases h with
        | refl => exact ⟨_, _, .stored r old hne, fun ⟨u, hu⟩ => by cases hu⟩
        | op h =>
          obtain rfl := steps_pure h
          exact ⟨_, _, .logged r old hne, fun _ => ⟨rfl, rfl⟩⟩
      · next heq =>
        obtain rfl := not_not.1 heq
        have h : Steps (.pure ()) tr p' := by simpa using h
        obtain rfl := steps_pure h
        exact ⟨_, _, .same r, fun _ => ⟨rfl, rfl⟩⟩

/-- The operation is a probe, and says which atomic it is of. -/
structure ProbesFor (health : Health) (o : HealthOp) (cell : HealthCell)
    (isUp : o.Ans → Bool) : Prop where
  probe : ∀ r, probeOf health ⟨o, r⟩ = some (cell, isUp r)
  noSwap : ∀ r, swapped ⟨o, r⟩ = none
  noLog : ∀ r, logged ⟨o, r⟩ = none

theorem Measured.sync {d : HealthCell} {label' : HealthLabel} {stored log : List UInt8}
    (h : Measured o cell label isUp tr stored log) (ho : ProbesFor health o cell isUp)
    (hl : d = cell ↔ label' = label) : ∃ stored' log', Sync health d label' tr stored' log'
      ∧ (stored = [] → stored' = []) ∧ (log = [] → log' = []) := by
  by_cases hd : d = cell
  · obtain rfl := hl.1 hd
    subst hd
    refine ⟨stored, log, ?_, id, id⟩
    cases h with
    | before => exact sync_nil d label'
    | probed r =>
      exact ⟨by simp [about_cons, ho.probe, ho.noSwap],
        by simp [about_cons, ho.noSwap, ho.noLog, changed], by simp⟩
    | same r =>
      exact ⟨by simp [about_cons, ho.probe, ho.noSwap],
        by simp [about_cons, ho.noSwap, ho.noLog, changed], by simp⟩
    | stored r old hne =>
      exact ⟨by simp [about_cons, ho.probe, ho.noSwap],
        by simp [about_cons, ho.noSwap, ho.noLog, changed, hne], by simp⟩
    | logged r old hne =>
      exact ⟨by simp [about_cons, ho.probe, ho.noSwap],
        by simp [about_cons, ho.noSwap, ho.noLog, changed, hne], by simp⟩
  · have hlabel : label ≠ label' := fun h => hd (hl.2 h.symm)
    have hd : cell ≠ d := fun h => hd h.symm
    refine ⟨[], [], ?_, fun _ => rfl, fun _ => rfl⟩
    cases h <;>
      exact ⟨by simp [about_cons, ho.probe, ho.noSwap, hd],
        by simp [about_cons, ho.noSwap, ho.noLog, changed, hd, hlabel], by simp⟩

/-- The label names the entry, and no other. -/
def Labels (health : Health) (cell : HealthCell) (label : HealthLabel) : Prop :=
  ∀ d, labelOf health d = some label ↔ d = cell

theorem follows_measured (ho : ProbesFor health o cell isUp) (hl : Labels health cell label) :
    Follows health (ExceptT.lift (measured o cell label isUp)) := by
  have hlabel : ∀ d label', labelOf health d = some label' → (d = cell ↔ label' = label) := by
    intro d label' hd
    refine ⟨fun h => ?_, fun h => (hl d).1 (h ▸ hd)⟩
    exact Option.some.inj (hd.symm.trans ((hl d).2 h))
  constructor
  · intro tr p' h d label' hd
    rw [ExceptT.run_lift] at h
    rcases steps_bind h with ⟨p'', h, -⟩ | ⟨tr₁, tr₂, a, rfl, h₁, h₂⟩
    · obtain ⟨stored, log, h, -⟩ := steps_measured h
      obtain ⟨stored', log', hs, -⟩ := h.sync ho (hlabel d label' hd)
      exact ⟨stored', log', hs⟩
    · obtain rfl := steps_pure h₂
      obtain ⟨stored, log, h, -⟩ := steps_measured h₁
      obtain ⟨stored', log', hs, -⟩ := h.sync ho (hlabel d label' hd)
      exact ⟨stored', log', by rwa [List.append_nil]⟩
  · intro tr r h
    obtain ⟨u, rfl, hrun⟩ := run_lift.1 h
    refine ⟨⟨u, rfl⟩, fun d label' hd => ?_⟩
    obtain ⟨stored, log, hm, hend⟩ := steps_measured hrun
    obtain ⟨stored', log', hs, h₁, h₂⟩ := hm.sync ho (hlabel d label' hd)
    obtain ⟨hstored, hlog⟩ := hend ⟨u, rfl⟩
    obtain rfl := h₁ hstored
    obtain rfl := h₂ hlog
    exact hs

/-! ## The registered entries -/

section

variable {p : Probed} {debugAssertions : Bool}

theorem registered_ctSource : (registered p).named.findIdx? (· = ctSource) = some 0 := by
  rcases hc : p.commitment with _ | cv <;> simp [registered, Health.new, hc, List.findIdx?_cons]

theorem registered_commitment {cv : CommitmentConfig} (h : p.commitment = some cv) :
    (registered p).named.findIdx? (· = commitmentRegistry) = some 1 := by
  simp [registered, Health.new, h, List.findIdx?_cons, ctSource, commitmentRegistry]

theorem registered_chain {chainId : UInt64} (h : chainId ∈ servedChains p) :
    ∃ i, (registered p).chains.findIdx? (·.1 = chainId) = some i
      ∧ (registered p).chains[i]? = some (chainId, toString chainId) := by
  have hmem : (chainId, toString chainId) ∈ (registered p).chains :=
    List.mem_map.2 ⟨chainId, h, rfl⟩
  obtain ⟨i, hi⟩ : ∃ i, (registered p).chains.findIdx? (·.1 = chainId) = some i := by
    rw [← Option.isSome_iff_exists, List.findIdx?_isSome, List.any_eq_true]
    exact ⟨_, hmem, by simp⟩
  refine ⟨i, hi, ?_⟩
  obtain ⟨hlt, hat, -⟩ := List.findIdx?_eq_some_iff_getElem.1 hi
  obtain ⟨id, -, hid⟩ := List.mem_map.1 (List.getElem_mem hlt)
  rw [List.getElem?_eq_getElem hlt, ← hid]
  rw [← hid] at hat
  obtain rfl := of_decide_eq_true hat
  rfl

theorem chainLabel_injective : Function.Injective fun chainId : UInt64 => toString chainId := by
  intro a b h
  have h : a.toNat.repr = b.toNat.repr := h
  have hlist := congrArg String.toList h
  rw [Nat.toList_repr, Nat.toList_repr] at hlist
  have hnat := congrArg (Nat.ofDigitChars 10 · 0) hlist
  simp only [Nat.ofDigitChars_ten_toDigits] at hnat
  exact UInt64.toNat_inj.1 hnat

theorem nodup_named : (registered p).named.Nodup := by
  rcases hc : p.commitment with _ | cv <;>
    simp [registered, Health.new, hc, ctSource, commitmentRegistry]

theorem nodup_chains : ((registered p).chains.map (·.2)).Nodup := by
  rw [registered, Health.new, List.map_map]
  exact p.nodup.map chainLabel_injective

theorem labels_named {i : ℕ} {name : String} (h : (registered p).named[i]? = some name) :
    Labels (registered p) (.named i) (.dependency name) := by
  intro d
  constructor
  · intro hd
    cases d with
    | named j =>
      obtain ⟨name', hj, hname⟩ := Option.map_eq_some_iff.1 hd
      cases hname
      have hlt := (List.getElem?_eq_some_iff.1 hj).1
      exact congrArg _ ((List.getElem?_inj hlt nodup_named).1 (hj.trans h.symm))
    | chain j =>
      obtain ⟨chain, -, hname⟩ := Option.map_eq_some_iff.1 hd
      cases hname
  · rintro rfl
    rw [labelOf, h]
    rfl

theorem labels_chain {i : ℕ} {chainId : UInt64} {label : String}
    (h : (registered p).chains[i]? = some (chainId, label)) :
    Labels (registered p) (.chain i) (.hostChainId label) := by
  intro d
  constructor
  · intro hd
    cases d with
    | named j =>
      obtain ⟨chain, -, hname⟩ := Option.map_eq_some_iff.1 hd
      cases hname
    | chain j =>
      obtain ⟨chain, hj, hname⟩ := Option.map_eq_some_iff.1 hd
      cases hname
      have hlt : j < ((registered p).chains.map (·.2)).length := by
        rw [List.length_map]
        exact (List.getElem?_eq_some_iff.1 hj).1
      refine congrArg _ ((List.getElem?_inj hlt nodup_chains).1 ?_)
      rw [List.getElem?_map, List.getElem?_map, hj, h]
      rfl
  · rintro rfl
    rw [labelOf, h]
    rfl

theorem named_of_findIdx {i : ℕ} {name : String}
    (h : (registered p).named.findIdx? (· = name) = some i) :
    (registered p).named[i]? = some name := by
  obtain ⟨hlt, hat, -⟩ := List.findIdx?_eq_some_iff_getElem.1 h
  rw [List.getElem?_eq_getElem hlt]
  exact congrArg some (of_decide_eq_true hat)

/-- A probe of a registered dependency, whose result is stored. -/
theorem follows_set {i : ℕ} {name : String}
    (hi : (registered p).named.findIdx? (· = name) = some i)
    (ho : ProbesFor (registered p) o (.named i) isUp) :
    Follows (registered p) (ExceptT.lift (healthCall o >>= fun r => return isUp r) >>= fun isUp =>
      (registered p).set debugAssertions name isUp) := by
  have hset : ∀ isUp, (registered p).set debugAssertions name isUp
      = ExceptT.lift (record (.named i) (.dependency name) isUp) := by
    intro isUp
    rw [Health.set, hi]
  simp only [hset]
  exact follows_measured ho (labels_named (named_of_findIdx hi))

theorem follows_ctSource : Follows (registered p) (ExceptT.lift probeCtSource >>= fun isUp =>
    (registered p).set debugAssertions ctSource isUp) := by
  have ho : ProbesFor (registered p) .probeCtSource (.named 0) HealthReply.isSuccess :=
    ⟨fun r => by simp [probeOf, registered_ctSource], fun _ => rfl, fun _ => rfl⟩
  exact follows_set registered_ctSource ho

theorem follows_commitment {cv : CommitmentConfig} (h : p.commitment = some cv) :
    Follows (registered p) (ExceptT.lift cv.probe >>= fun isUp =>
      (registered p).set debugAssertions commitmentRegistry isUp) := by
  have ho : ProbesFor (registered p) (.getVersionStatus cv.registry cv.version cv.timeout)
      (.named 1) RpcResult.answered :=
    ⟨fun r => by simp [probeOf, registered_commitment h], fun _ => rfl, fun _ => rfl⟩
  exact follows_set (registered_commitment h) ho

theorem follows_chain {chainId : UInt64} {chain : ChainConfig} (h : chainId ∈ servedChains p) :
    Follows (registered p) (ExceptT.lift (chain.probe chainId) >>= fun isUp =>
      (registered p).setChain debugAssertions chainId isUp) := by
  obtain ⟨i, hi, hat⟩ := registered_chain h
  have hset : ∀ isUp, (registered p).setChain debugAssertions chainId isUp
      = ExceptT.lift (record (.chain i) (.hostChainId (toString chainId)) isUp) := by
    intro isUp
    rw [Health.setChain, hi]
    simp only [hat, Option.map_some, Option.getD_some]
  have ho : ProbesFor (registered p) (.getVersion chainId chain) (.chain i) RpcResult.answered :=
    ⟨fun r => by simp [probeOf, hi], fun _ => rfl, fun _ => rfl⟩
  simp only [hset]
  exact follows_measured ho (labels_chain hat)

theorem follows_chains : ∀ {chains : List (UInt64 × ChainConfig)},
    (∀ chain ∈ chains, chain.1 ∈ servedChains p) →
      Follows (registered p) (probeChains debugAssertions (registered p) chains)
  | [], _ => follows_pure ()
  | (chainId, chain) :: chains, h => by
    rw [probeChains]
    refine (follows_chain (h _ List.mem_cons_self)).bind_bind fun _ => ?_
    exact follows_chains fun chain hc => h chain (List.mem_cons_of_mem _ hc)

theorem follows_round : Follows (registered p) (probeRound debugAssertions (registered p) p) := by
  rw [probeRound]
  refine follows_tick.bind fun _ => ?_
  refine follows_ctSource.bind_bind fun _ => ?_
  rcases hacp : p.acp with _ | chains
  · rcases hcv : p.commitment with _ | cv
    · exact (follows_pure ()).bind fun _ => follows_pure ()
    · exact (follows_commitment hcv).bind_bind fun _ => follows_pure ()
  · have hchains : Follows (registered p) (probeChains debugAssertions (registered p) chains) := by
      refine follows_chains fun chain hc => ?_
      rw [servedChains, hacp]
      exact List.mem_map_of_mem hc
    rcases hcv : p.commitment with _ | cv
    · exact (follows_pure ()).bind fun _ => hchains
    · exact (follows_commitment hcv).bind_bind fun _ => hchains

/-- The probe loop is in step with its probes, in whichever of its rounds it is. -/
theorem follows_probeDependencies : ∀ rounds : ℕ,
    Follows (registered p) (probeDependencies debugAssertions (registered p) p rounds)
  | 0 => follows_pure ()
  | rounds + 1 => follows_round.bind fun _ => follows_probeDependencies rounds

end

/-! ## What the gauges load -/

theorem atomics_swaps : atomics.Swaps (fun s k => s k) swapped where
  old := by
    intro s s' o x k a b h hs
    cases o with
    | swap cell new =>
      cases hs
      exact h.1
    | _ => cases hs
  new := by
    intro s s' o x h k'
    cases o with
    | swap cell new =>
      obtain ⟨-, rfl⟩ := h
      by_cases hk : cell = k'
      · subst hk
        exact (Function.update_self ..).trans (by simp)
      · exact (Function.update_of_ne (Ne.symm hk) ..).trans (by simp [hk])
    | load cell =>
      obtain ⟨-, rfl⟩ := h
      rfl
    | _ =>
      obtain rfl := h
      rfl
  env := fun h => h.elim
  release := fun _ _ => rfl

/-- A load of an atomic. -/
def IsLoad (e : Event healthSig) : Prop := ∃ d v, e = ⟨.load d, v⟩

theorem only_load (d : HealthCell) : Always (Only IsLoad) (healthCall (.load d)) :=
  (mixes_only IsLoad).call fun v => only_singleton.2 ⟨d, v, rfl⟩

theorem only_allUp : ∀ cells : List HealthCell, Always (Only IsLoad) (allUp cells)
  | [] => (mixes_only IsLoad).pure true
  | cell :: cells => by
    refine (mixes_only IsLoad).bind (only_load cell) fun v => ?_
    split
    · exact only_allUp cells
    · exact (mixes_only IsLoad).pure false

theorem only_healthy : Always (Only IsLoad) health.healthy := by
  refine (mixes_only IsLoad).bind (only_allUp _) fun up => ?_
  split
  · exact only_allUp _
  · exact (mixes_only IsLoad).pure false

theorem only_observeAll : ∀ entries : List (HealthCell × HealthLabel),
    Always (Only IsLoad) (observeAll entries)
  | [] => (mixes_only IsLoad).pure []
  | (cell, _) :: entries => (mixes_only IsLoad).bind (only_load cell) fun _ =>
    (mixes_only IsLoad).bind (only_observeAll entries) fun _ => (mixes_only IsLoad).pure _

/-- What the loads of `tr` say of whether all of `cells` are up. -/
def Judged (cells : List HealthCell) (tr : Trace healthSig) : Bool → Prop
  | true => ∀ d ∈ cells, (⟨.load d, up⟩ : Event healthSig) ∈ tr
  | false => ∃ d ∈ cells, ∃ v : UInt8, v ≠ up ∧ (⟨.load d, v⟩ : Event healthSig) ∈ tr

theorem run_allUp {verdict : Bool} : ∀ {cells : List HealthCell} {tr : Trace healthSig},
    Run (allUp cells) tr verdict → Judged cells tr verdict
  | [], tr, h => by
    obtain ⟨-, rfl⟩ := run_pure.1 h
    exact fun d hd => absurd hd List.not_mem_nil
  | cell :: cells, tr, h => by
    obtain ⟨tr₁, tr₂, v, rfl, h₁, h₂⟩ := run_bind.1 h
    obtain rfl := run_call.1 h₁
    split at h₂
    · next hup =>
      have ih := run_allUp h₂
      obtain rfl : v = up := hup
      cases verdict with
      | true =>
        intro d hd
        rcases List.mem_cons.1 hd with rfl | hd
        · exact List.mem_cons_self
        · exact List.mem_cons_of_mem _ (ih d hd)
      | false =>
        obtain ⟨d, hd, v, hv, hmem⟩ := ih
        exact ⟨d, List.mem_cons_of_mem _ hd, v, hv, List.mem_cons_of_mem _ hmem⟩
    · next hdown =>
      obtain ⟨-, rfl⟩ := run_pure.1 h₂
      exact ⟨cell, List.mem_cons_self, v, hdown, List.mem_cons_self⟩

theorem run_healthy {verdict : Bool} (h : Run health.healthy tr verdict) :
    Judged (health.namedCells ++ health.chainCells) tr verdict := by
  obtain ⟨tr₁, tr₂, named, rfl, h₁, h₂⟩ := run_bind.1 h
  have hnamed := run_allUp h₁
  cases named with
  | true =>
    have hchain := run_allUp h₂
    cases verdict with
    | true =>
      intro d hd
      rcases List.mem_append.1 hd with hd | hd
      · exact List.mem_append_left _ (hnamed d hd)
      · exact List.mem_append_right _ (hchain d hd)
    | false =>
      obtain ⟨d, hd, v, hv, hmem⟩ := hchain
      exact ⟨d, List.mem_append_right _ hd, v, hv, List.mem_append_right _ hmem⟩
  | false =>
    obtain ⟨-, rfl⟩ := run_pure.1 h₂
    obtain ⟨d, hd, v, hv, hmem⟩ := hnamed
    exact ⟨d, List.mem_append_left _ hd, v, hv, List.mem_append_left _ hmem⟩

/-- A series has a value for each of its entries, which was loaded. -/
theorem run_observeAll : ∀ {entries : List (HealthCell × HealthLabel)} {tr : Trace healthSig}
    {values : List (HealthLabel × Bool)}, Run (observeAll entries) tr values →
      List.Forall₂ (fun entry value => value.1 = entry.2 ∧ ∃ v : UInt8,
        (⟨.load entry.1, v⟩ : Event healthSig) ∈ tr ∧ value.2 = decide (v = up)) entries values
  | [], tr, values, h => by
    obtain ⟨-, rfl⟩ := run_pure.1 h
    exact .nil
  | (cell, label) :: entries, tr, values, h => by
    obtain ⟨tr₁, tr₂, v, rfl, h₁, h₂⟩ := run_bind.1 h
    obtain rfl := run_call.1 h₁
    obtain ⟨tr₃, tr₄, values, rfl, h₃, h₄⟩ := run_bind.1 h₂
    obtain ⟨rfl, rfl⟩ := run_pure.1 h₄
    refine .cons ⟨rfl, v, List.mem_cons_self, rfl⟩ ?_
    refine (run_observeAll h₃).imp ?_
    rintro entry value ⟨hlabel, v, hmem, hv⟩
    exact ⟨hlabel, v, by simp [hmem], hv⟩

/-! ## Every run -/

/-- What the probes of an entry said in `tr`, and what of it `value` and the log lines show: the
last result that was stored, and the stored ones with the repeats left out, but for at most one
result not stored yet or one line not logged yet. The stored results are what the atomic was
swapped for, in order. -/
def Current (health : Health) (d : HealthCell) (label : HealthLabel) (tr : Trace healthSig)
    (value : UInt8) : Prop :=
  ∃ stored pending log : List Bool, about (probeOf health) d tr = stored ++ pending
    ∧ (about swapped d tr).map (·.2) = stored.map code
    ∧ value = (stored.getLast?.map code).getD unprobed
    ∧ stored.destutter (· ≠ ·) = about logged label tr ++ log
    ∧ pending.length + log.length ≤ 1

theorem code_injective : Function.Injective code := by
  intro a b h
  cases a <;> cases b <;> first | rfl | cases h

theorem unprobed_ne_code (isUp : Bool) : unprobed ≠ code isUp := by
  cases isUp <;> decide

theorem Sync.current {d : HealthCell} {stored log : List UInt8} {value : UInt8}
    (h : Sync health d label tr stored log) (hl : Linked unprobed (about swapped d tr) value) :
    Current health d label tr value := by
  obtain ⟨done, pending, hres, hdone, hpending⟩ := List.map_eq_append_iff.1 h.results
  have hlog : (done.map code).destutter (· ≠ ·) = (about logged label tr).map code ++ log := by
    rw [← h.logs]
    have hchanged := hl.changed
    rw [← hdone] at hchanged
    cases done with
    | nil => exact (List.cons.inj hchanged).2.symm
    | cons isUp done =>
      rw [List.map_cons, List.destutter'_cons_pos _ (unprobed_ne_code isUp)] at hchanged
      exact (List.cons.inj hchanged).2.symm
  rw [← List.map_destutter_ne _ code_injective] at hlog
  obtain ⟨logs, log', hlogs, hlogs', hlog'⟩ := List.map_eq_append_iff.1 hlog
  obtain rfl := code_injective.list_map hlogs'
  refine ⟨done, pending, log', hres, hdone.symm, ?_, hlogs, ?_⟩
  · rw [← hl.last, ← hdone, ← List.getLast?_map, List.getLastD_eq_getLast?]
  · have := h.pending
    rw [← hpending, ← hlog', List.length_map, List.length_map] at this
    exact this

section

variable {p : Probed} {debugAssertions : Bool} {prober : ℕ}
  {c : Config atomics HealthJob Observed}

theorem only_gauge {job : HealthJob} (hjob : ∀ rounds, job ≠ .probeDependencies rounds) :
    Always (Only IsLoad) (observeHealth debugAssertions p job) := by
  cases job with
  | probeDependencies rounds => exact absurd rfl (hjob rounds)
  | dependencyUp => exact (mixes_only IsLoad).bind (only_observeAll _) fun _ =>
      (mixes_only IsLoad).pure _
  | acpRpcUp => exact (mixes_only IsLoad).bind (only_observeAll _) fun _ =>
      (mixes_only IsLoad).pure _
  | healthy => exact (mixes_only IsLoad).bind only_healthy fun _ => (mixes_only IsLoad).pure _

/-- Only one thread probes. -/
def OneProber (prober : ℕ) (hist : List (Entry atomics HealthJob)) : Prop :=
  ∀ e ∈ hist, ∀ rounds, e.job = .probeDependencies rounds → e.pid = prober

theorem about_of_loads {κ B : Type} [DecidableEq κ] {f : Event healthSig → Option (κ × B)}
    (hf : ∀ d v, f ⟨.load d, v⟩ = none) {k : κ} (h : Only IsLoad tr) : about f k tr = [] := by
  refine List.filterMap_eq_nil_iff.2 fun e he => ?_
  obtain ⟨d, v, rfl⟩ := h e he
  rw [hf]
  rfl

/-- What is probed, stored or logged is the prober's. -/
theorem about_hist {κ B : Type} [DecidableEq κ] {f : Event healthSig → Option (κ × B)}
    (hc : Reachable (observeHealth debugAssertions p) (fun _ => unprobed) c)
    (hone : OneProber prober c.hist) (hf : ∀ d v, f ⟨.load d, v⟩ = none) (k : κ) :
    about f k (c.hist.map Entry.event) = about f k (c.eventsOf prober) := by
  have hother : ∀ e ∈ c.hist, e.pid ≠ prober → IsLoad e.event := by
    intro e he hpid
    refine hc.entry_always (Q := fun job ev => (∀ rounds, job ≠ .probeDependencies rounds) →
      IsLoad ev) ?_ e he fun rounds hjob => hpid (hone e he rounds hjob)
    intro job tr p' hs ev hev hjob
    exact only_gauge hjob tr p' hs ev hev
  rw [Config.eventsOf]
  generalize c.hist = hist at hother ⊢
  induction hist with
  | nil => rfl
  | cons e hist ih =>
    have ih := ih fun e' he' => hother e' (List.mem_cons_of_mem _ he')
    by_cases hpid : e.pid = prober
    · rw [List.filter_cons_of_pos (by simpa using hpid), List.map_cons, List.map_cons, about_cons,
        about_cons, ih]
    · obtain ⟨d, v, hload⟩ := hother e List.mem_cons_self hpid
      rw [List.filter_cons_of_neg (by simpa using hpid), List.map_cons, about_cons, hload, hf, ih]

theorem current_hist
    (hc : Reachable (observeHealth debugAssertions p) (fun _ => unprobed) c)
    (hone : OneProber prober c.hist) {d : HealthCell}
    (hd : labelOf (registered p) d = some label) :
    Current (registered p) d label (c.hist.map Entry.event) (c.state d) := by
  have hsync : ∃ stored log, Sync (registered p) d label (c.eventsOf prober) stored log := by
    rcases hc.poolOk.past prober with ⟨job, p', hs, -⟩ | hnil
    · by_cases hjob : ∀ rounds, job ≠ .probeDependencies rounds
      · have hloads := only_gauge hjob _ _ hs
        refine ⟨[], [], ?_, ?_, by simp⟩
        · rw [about_of_loads (fun _ _ => rfl) hloads, about_of_loads (fun _ _ => rfl) hloads]
          rfl
        · rw [about_of_loads (fun _ _ => rfl) hloads, about_of_loads (fun _ _ => rfl) hloads]
          rfl
      · obtain ⟨rounds, rfl⟩ : ∃ rounds, job = .probeDependencies rounds := by
          simpa using hjob
        have hfollows : Follows (registered p)
            (probeDependencies debugAssertions (registered p) p rounds) :=
          follows_probeDependencies rounds
        rcases steps_bind hs with ⟨p'', hs, -⟩ | ⟨tr₁, tr₂, a, htr, h₁, h₂⟩
        · exact hfollows.part hs d label hd
        · obtain rfl := steps_pure h₂
          rw [htr, List.append_nil]
          exact hfollows.part h₁ d label hd
    · rw [hnil]
      exact ⟨[], [], sync_nil d label⟩
  obtain ⟨stored, log, hsync⟩ := hsync
  have hl := hc.linked atomics_swaps d
  rw [about_hist hc hone (fun _ _ => rfl)] at hl
  obtain ⟨done, pending, log, hres, hdone, hvalue, hlog, hle⟩ := hsync.current hl
  refine ⟨done, pending, log, ?_, ?_, hvalue, ?_, hle⟩
  · rw [about_hist hc hone (fun _ _ => rfl), hres]
  · rw [about_hist hc hone (fun _ _ => rfl), hdone]
  · rw [about_hist hc hone (fun _ _ => rfl), hlog]

/-- The thread `pid` loaded `value` from the atomic of an entry, which held it then, as what its
probes said so far. -/
def SeenBy (health : Health) (c : Config atomics HealthJob Observed) (pid : ℕ) (d : HealthCell)
    (label : HealthLabel) (value : UInt8) : Prop :=
  ∃ h₁ e h₂, c.hist = h₁ ++ e :: h₂ ∧ e.pid = pid ∧ e.event = ⟨.load d, value⟩ ∧ e.pre d = value
    ∧ Current health d label (h₁.map Entry.event) (e.pre d)

/-- What the callback of a gauge observes, and which series it is of. -/
def gauged (health : Health) : HealthJob → List (HealthCell × HealthLabel)
  | .dependencyUp => health.namedCells.zip (health.named.map .dependency)
  | .acpRpcUp => health.chainCells.zip (health.chains.map fun chain => .hostChainId chain.2)
  | _ => []

/-- What a finished thread says. -/
def Says (health : Health) (c : Config atomics HealthJob Observed) (pid : ℕ) (job : HealthJob) :
    Observed → Prop
  | .probed r => ∃ a, r = .ok a
  | .verdict true => ∀ d label, labelOf health d = some label → SeenBy health c pid d label up
  | .verdict false => ∃ d label v, labelOf health d = some label ∧ v ≠ up
      ∧ SeenBy health c pid d label v
  | .series values => List.Forall₂ (fun entry value => value.1 = entry.2 ∧ ∃ v,
      SeenBy health c pid entry.1 entry.2 v ∧ value.2 = decide (v = up)) (gauged health job) values

theorem labelOf_mem {d : HealthCell} :
    (∃ label, labelOf health d = some label) ↔ d ∈ health.namedCells ++ health.chainCells := by
  rw [← Option.isSome_iff_exists]
  cases d <;> simp [labelOf, namedCells, chainCells]

theorem of_mem_zip {mk : ℕ → HealthCell} {n : ℕ} {labels : List HealthLabel}
    {entry : HealthCell × HealthLabel} (h : entry ∈ ((List.range n).map mk).zip labels) :
    ∃ i, entry.1 = mk i ∧ labels[i]? = some entry.2 := by
  obtain ⟨i, hi⟩ := List.mem_iff_getElem?.1 h
  obtain ⟨hcell, hlabel⟩ := List.getElem?_zip_eq_some.1 hi
  rw [List.getElem?_map, Option.map_eq_some_iff] at hcell
  obtain ⟨j, hj, hcell⟩ := hcell
  obtain rfl : i = j := by simpa using (List.getElem?_eq_some_iff.1 hj).2
  exact ⟨i, hcell.symm, hlabel⟩

theorem labelOf_gauged {job : HealthJob} {entry : HealthCell × HealthLabel}
    (h : entry ∈ gauged health job) : labelOf health entry.1 = some entry.2 := by
  cases job with
  | probeDependencies rounds => cases h
  | healthy => cases h
  | dependencyUp =>
    obtain ⟨i, hcell, hlabel⟩ := of_mem_zip h
    rw [hcell, labelOf, ← hlabel, List.getElem?_map]
  | acpRpcUp =>
    obtain ⟨i, hcell, hlabel⟩ := of_mem_zip h
    rw [hcell, labelOf, ← hlabel, List.getElem?_map]

/-- A loaded value was the entry's. -/
theorem seenBy_load
    (hc : Reachable (observeHealth debugAssertions p) (fun _ => unprobed) c)
    (hone : OneProber prober c.hist) {pid : ℕ} {t : Thread healthSig HealthJob Observed}
    (ht : c.threads pid = some t) {d : HealthCell} (hd : labelOf (registered p) d = some label)
    {v : UInt8} (hv : (⟨.load d, v⟩ : Event healthSig) ∈ t.trace) :
    SeenBy (registered p) c pid d label v := by
  obtain ⟨e, he, hpid, hev⟩ := (hc.mem_trace ht).1 hv
  obtain ⟨h₁, h₂, hsplit⟩ := List.append_of_mem he
  obtain ⟨c₁, hc₁, hh₁, hs₁, -⟩ := hc.before hsplit
  have hone₁ : OneProber prober c₁.hist := by
    intro e' he' rounds hjob
    refine hone e' ?_ rounds hjob
    rw [hsplit]
    exact List.mem_append_left _ (hh₁ ▸ he')
  have hcur := current_hist hc₁ hone₁ hd
  have hperform := hc.performs e he
  rw [hev] at hperform
  obtain ⟨hval, -⟩ := hperform
  rw [hh₁, hs₁] at hcur
  exact ⟨h₁, e, h₂, hsplit, hpid, hev, hval.symm, hcur⟩

theorem health_follows
    (hc : Reachable (observeHealth debugAssertions p) (fun _ => unprobed) c)
    (hone : OneProber prober c.hist) :
    (∀ d label, labelOf (registered p) d = some label →
      Current (registered p) d label (c.hist.map Entry.event) (c.state d))
    ∧ ∀ pid t r, c.threads pid = some t → t.rest = .pure r →
      Says (registered p) c pid t.job r := by
  refine ⟨fun d label hd => current_hist hc hone hd, fun pid t r ht hr => ?_⟩
  have hrun := hc.run ht hr
  have hseries : ∀ values, List.Forall₂ (fun entry value => value.1 = entry.2 ∧ ∃ v : UInt8,
      (⟨.load entry.1, v⟩ : Event healthSig) ∈ t.trace ∧ value.2 = decide (v = up))
      (gauged (registered p) t.job) values → Says (registered p) c pid t.job (.series values) := by
    intro values h
    refine List.forall₂_iff_get.2 ⟨h.length_eq, fun i hi hi' => ?_⟩
    obtain ⟨hlabel, v, hmem, hv⟩ := (List.forall₂_iff_get.1 h).2 i hi hi'
    exact ⟨hlabel, v, seenBy_load hc hone ht (labelOf_gauged (List.get_mem _ _)) hmem, hv⟩
  cases hjob : t.job with
  | probeDependencies rounds =>
    rw [hjob] at hrun
    obtain ⟨tr₁, tr₂, a, -, h₁, h₂⟩ := run_bind.1 hrun
    obtain ⟨-, rfl⟩ := run_pure.1 h₂
    have hfollows : Follows (registered p)
        (probeDependencies debugAssertions (registered p) p rounds) :=
      follows_probeDependencies rounds
    exact (hfollows.whole h₁).1
  | healthy =>
    rw [hjob] at hrun
    obtain ⟨tr₁, tr₂, verdict, htr, h₁, h₂⟩ := run_bind.1 hrun
    obtain ⟨rfl, rfl⟩ := run_pure.1 h₂
    rw [List.append_nil] at htr
    have hjudged := run_healthy h₁
    cases verdict with
    | true =>
      intro d label hd
      exact seenBy_load hc hone ht hd (htr ▸ hjudged d (labelOf_mem.1 ⟨label, hd⟩))
    | false =>
      obtain ⟨d, hd, v, hv, hmem⟩ := hjudged
      obtain ⟨label, hlabel⟩ := labelOf_mem.2 hd
      exact ⟨d, label, v, hlabel, hv, seenBy_load hc hone ht hlabel (htr ▸ hmem)⟩
  | dependencyUp =>
    rw [hjob] at hrun
    obtain ⟨tr₁, tr₂, values, htr, h₁, h₂⟩ := run_bind.1 hrun
    obtain ⟨rfl, rfl⟩ := run_pure.1 h₂
    rw [List.append_nil] at htr
    rw [hjob, htr] at hseries
    exact hseries values (run_observeAll h₁)
  | acpRpcUp =>
    rw [hjob] at hrun
    obtain ⟨tr₁, tr₂, values, htr, h₁, h₂⟩ := run_bind.1 hrun
    obtain ⟨rfl, rfl⟩ := run_pure.1 h₂
    rw [List.append_nil] at htr
    rw [hjob, htr] at hseries
    exact hseries values (run_observeAll h₁)

end

/-- A deployment with ct-server alone. -/
def probedCtSource : Probed := ⟨none, none, List.nodup_nil⟩

/-- One probe that ct-server answers, and a read of the gauge after it. -/
theorem health_follows_sample : ∃ (c : Config atomics HealthJob Observed) (pid : ℕ),
    Reachable (observeHealth false probedCtSource) (fun _ => unprobed) c
      ∧ Current (registered probedCtSource) (.named 0) (.dependency ctSource)
        (c.hist.map Entry.event) up
      ∧ Says (registered probedCtSource) c pid .dependencyUp
        (.series [(.dependency ctSource, true)])
      ∧ SeenBy (registered probedCtSource) c pid (.named 0) (.dependency ctSource) up := by
  let tr : Trace healthSig := [⟨.tick, ()⟩, ⟨.probeCtSource, .status 200⟩,
    ⟨.swap (.named 0) up, unprobed⟩, ⟨.log (.dependency ctSource) true, ()⟩]
  have hprobe : Steps (observeHealth false probedCtSource (.probeDependencies 1)) tr
      (.pure (.probed (.ok ()))) := .op (.op (.op (.op (.refl _))))
  have hs : atomics.Performs (fun _ => unprobed) tr
      (Function.update (fun _ => unprobed) (.named 0) up) :=
    .step rfl (.step rfl (.step ⟨rfl, rfl⟩ (.step rfl (.nil .refl))))
  obtain ⟨c₁, hist₁, hc₁, hstate₁, -, hhist₁, -, hown₁, -⟩ :=
    reachable_next Reachable.start hprobe hs
  have hread : Steps (observeHealth false probedCtSource .dependencyUp)
      [⟨.load (.named 0), up⟩] (.pure (.series [(.dependency ctSource, true)])) := .op (.refl _)
  have hup : c₁.state (.named 0) = up := by
    rw [hstate₁]
    exact Function.update_self ..
  have hs₂ : atomics.Performs c₁.state [⟨.load (.named 0), up⟩] c₁.state :=
    .step ⟨hup.symm, rfl⟩ (.nil .refl)
  obtain ⟨c, hist₂, hc, hstate, -, hhist, -, hown₂, ht, -⟩ := reachable_next hc₁ hread hs₂
  have hone : OneProber 0 c.hist := by
    intro e he rounds hjob
    rw [hhist, hhist₁] at he
    rcases List.mem_append.1 he with he | he
    · exact (hown₁ e he).1
    · rw [(hown₂ e he).2] at hjob
      cases hjob
  obtain ⟨hcurrent, hsays⟩ := health_follows hc hone
  have hsaid := hsays c₁.next _ _ ht rfl
  refine ⟨c, c₁.next, hc, ?_, hsaid, ?_⟩
  · rw [← hup, ← hstate]
    exact hcurrent (.named 0) (.dependency ctSource) rfl
  · obtain ⟨-, v, hseen, hv⟩ := (List.forall₂_cons.1 hsaid).1
    rwa [← of_decide_eq_true hv.symm]

end Teecryptor
