import Teecryptor.Proofs.Boot
import Mathlib.Data.ENat.Lattice

/-!
# The TaskManagers are resolved in a bounded number of calls, all or none

A chain's resolution is told by the outcomes its calls would have, one after the other. The loop
stops at the first that another attempt cannot change, or at its last attempt. The chains of a map
are resolved in any order, and the outcome for each is its own.
-/

namespace Teecryptor

open Interact Interact.Prog Bytes Rust

variable {crates : BootCrates} {chain : PendingChain} {tr : Trace bootSig}

/-! ## The outcomes of the calls -/

/-- Neither a transport error nor a timeout. -/
def BookReply.Decisive : BookReply → Prop
  | .ok _ => True
  | .error revert _ => revert.isSome
  | .timeout => False

/-- The position of the first decisive outcome, counted from 1; infinite if there is none. -/
noncomputable def firstDecisive (o : ℕ → BookReply) : ℕ∞ :=
  ⨅ i ∈ {i | (o i).Decisive}, ((i + 1 : ℕ) : ℕ∞)

/-- The first `k` calls of a chain's resolution, with the outcomes `o`. -/
def calls (chain : PendingChain) (o : ℕ → BookReply) (k : ℕ) : Trace bootSig :=
  (List.range k).map fun i =>
    ⟨.getTm chain.rpcUrl chain.addressBook chain.taskManagerId chain.timeout, o i⟩

/-- The calls have the outcomes `o`, in order. -/
def Answered (chain : PendingChain) (o : ℕ → BookReply) (tr : Trace bootSig) : Prop :=
  ∃ k, tr = calls chain o k

theorem length_calls (o : ℕ → BookReply) (k : ℕ) : (calls chain o k).length = k := by
  simp [calls]

theorem calls_succ (o : ℕ → BookReply) (k : ℕ) : calls chain o (k + 1)
    = ⟨.getTm chain.rpcUrl chain.addressBook chain.taskManagerId chain.timeout, o 0⟩
      :: calls chain (fun i => o (i + 1)) k := by
  simp [calls, List.range_succ_eq_map, Function.comp_def]

theorem firstDecisive_eq {o : ℕ → BookReply} {i : ℕ} (h : (o i).Decisive)
    (hbefore : ∀ j < i, ¬ (o j).Decisive) : firstDecisive o = ((i + 1 : ℕ) : ℕ∞) := by
  refine le_antisymm (iInf₂_le i h) (le_iInf₂ fun j hj => ?_)
  have hij : i ≤ j := not_lt.1 fun hlt => hbefore j hlt hj
  exact_mod_cast Nat.succ_le_succ hij

theorem lt_firstDecisive {o : ℕ → BookReply} {n : ℕ} (h : ∀ j ≤ n, ¬ (o j).Decisive) :
    ((n + 1 : ℕ) : ℕ∞) < firstDecisive o := by
  have hle : ((n + 2 : ℕ) : ℕ∞) ≤ firstDecisive o := le_iInf₂ fun j hj => by
    have hnj : n < j := not_le.1 fun hle => h j hle hj
    exact_mod_cast Nat.succ_le_succ hnj
  exact lt_of_lt_of_le (by exact_mod_cast Nat.lt_succ_self (n + 1)) hle

/-- A failed answer lets another attempt follow where its outcome was not decisive. -/
theorem isTransient_bookAnswer {reply : BookReply} {e : AcpError}
    (h : bookAnswer crates chain reply = .error e) : e.isTransient = true ↔ ¬ reply.Decisive := by
  rcases reply with a | ⟨_ | d, text⟩ | _ <;> simp only [bookAnswer] at h <;> cases h <;>
    simp [BookReply.Decisive, mapBookError, AcpError.isTransient]

/-! ## One chain -/

/-- The attempt `i` is the last: the first with a decisive outcome, or the one after `retries`
more. -/
structure Stops (o : ℕ → BookReply) (retries i : ℕ) : Prop where
  le : i ≤ retries
  before : ∀ j < i, ¬ (o j).Decisive
  last : (o i).Decisive ∨ i = retries

theorem exists_stops (o : ℕ → BookReply) (retries : ℕ) : ∃ i, Stops o retries i := by
  classical
  by_cases h : ∃ i, (o i).Decisive ∧ i ≤ retries
  · refine ⟨Nat.find h, (Nat.find_spec h).2, fun j hj hd => ?_, .inl (Nat.find_spec h).1⟩
    exact Nat.find_min h hj ⟨hd, by have := (Nat.find_spec h).2; omega⟩
  · exact ⟨retries, le_rfl, fun j hj hd => h ⟨j, hd, hj.le⟩, .inr rfl⟩

/-- The number of attempts is the position of the first decisive outcome, at most `retries + 1`. -/
theorem Stops.attempts {o : ℕ → BookReply} {retries i : ℕ} (h : Stops o retries i) :
    ((i + 1 : ℕ) : ℕ∞) = min (firstDecisive o) ((retries + 1 : ℕ) : ℕ∞) := by
  by_cases hd : (o i).Decisive
  · rw [firstDecisive_eq hd h.before, min_eq_left]
    exact_mod_cast Nat.succ_le_succ h.le
  · obtain rfl := h.last.resolve_left hd
    rw [min_eq_right (lt_firstDecisive fun j hj => ?_).le]
    rcases hj.lt_or_eq with hlt | rfl
    · exact h.before j hlt
    · exact hd

/-- The loop of attempts: told `o`, it stops where `Stops` says, with that attempt's answer. -/
theorem run_getTaskManager {retries i : ℕ} {o : ℕ → BookReply} (h : Stops o retries i) :
    Run (getTaskManager crates chain retries).run (calls chain o (i + 1))
      (bookAnswer crates chain (o i)) := by
  induction retries generalizing o i with
  | zero =>
    obtain rfl : i = 0 := Nat.le_zero.1 h.le
    exact run_liftBind.2 ⟨_, [], o 0, by simp [calls], run_call.2 rfl, run_pure.2 ⟨rfl, rfl⟩⟩
  | succ retries ih =>
    rw [calls_succ]
    refine run_liftBind.2 ⟨_, _, o 0, rfl, run_call.2 rfl, ?_⟩
    rcases ha : bookAnswer crates chain (o 0) with e | a
    · by_cases hd : (o 0).Decisive
      · obtain rfl : i = 0 := by
          by_contra hi
          exact h.before 0 (Nat.pos_of_ne_zero hi) hd
        have htr : ¬ e.isTransient = true := fun ht => (isTransient_bookAnswer ha).1 ht hd
        simp only [if_neg htr]
        exact run_throw.2 ⟨rfl, ha⟩
      · have hi : i ≠ 0 := by
          rintro rfl
          exact absurd (h.last.resolve_left hd) (by omega)
        obtain ⟨i, rfl⟩ := Nat.exists_eq_succ_of_ne_zero hi
        simp only [if_pos ((isTransient_bookAnswer ha).2 hd)]
        refine ih ⟨by have := h.le; omega, fun j hj => h.before (j + 1) (by omega), ?_⟩
        rcases h.last with hl | hl
        · exact .inl hl
        · exact .inr (by omega)
    · obtain rfl : i = 0 := by
        by_contra hi
        refine h.before 0 (Nat.pos_of_ne_zero hi) ?_
        rw [bookAnswer_eq_ok.1 ha]
        trivial
      exact run_exceptPure.2 ⟨rfl, ha⟩

theorem linear_getTaskManager (retries : ℕ) :
    Linear (getTaskManager crates chain retries).run := by
  induction retries with
  | zero => exact (Linear.lift (.call _)).exceptBind fun reply => .pure _
  | succ retries ih =>
    refine (Linear.lift (.call _)).exceptBind fun reply => ?_
    rcases bookAnswer crates chain reply with e | a
    · by_cases h : e.isTransient = true
      · simpa only [if_pos h] using ih
      · simp only [if_neg h]
        exact .pure _
    · exact .pure _

/-- What `ChainConfig::resolve` makes of the last attempt's answer. -/
def verdict (crates : BootCrates) (chain : PendingChain) :
    Except AcpError Address → Except AcpError ChainConfig
  | .error e => .error e
  | .ok a =>
    if a = .zero 20 then
      let book := crates.showAddress chain.addressBook
      let id := chain.taskManagerId
      .error (.misconfigured
        s!"address book {book} returned the zero address for TaskManager id {id}")
    else .ok ⟨chain.rpcUrl, a, chain.timeout⟩

/-- `ChainConfig::resolve` where the URL parses, as the loop and its verdict. -/
theorem resolve_eq (hurl : crates.parseUrl chain.rpcUrl = .ok ()) :
    ChainConfig.resolve crates chain = getTaskManager crates chain chain.retries >>= fun a =>
      ExceptT.mk (.pure (verdict crates chain (.ok a))) := by
  unfold ChainConfig.resolve
  rw [hurl]
  simp only
  congr 1
  funext a
  by_cases h : a = .zero 20
  · simp only [verdict, if_pos h]
    rfl
  · simp only [verdict, if_neg h]
    rfl

theorem run_resolve {o : ℕ → BookReply} {i : ℕ} (hurl : crates.parseUrl chain.rpcUrl = .ok ())
    (h : Stops o chain.retries i) : Run (ChainConfig.resolve crates chain).run
      (calls chain o (i + 1)) (verdict crates chain (bookAnswer crates chain (o i))) := by
  have hrun := @run_getTaskManager crates chain _ _ _ h
  rw [resolve_eq hurl]
  rcases ha : bookAnswer crates chain (o i) with e | a
  · rw [ha] at hrun
    exact run_exceptBind.2 (.inl ⟨e, rfl, hrun⟩)
  · rw [ha] at hrun
    exact run_exceptBind.2 (.inr ⟨_, [], a, by simp, hrun, run_pure.2 ⟨rfl, rfl⟩⟩)

theorem linear_resolve : Linear (ChainConfig.resolve crates chain).run := by
  rcases hurl : crates.parseUrl chain.rpcUrl with e | _
  · unfold ChainConfig.resolve
    rw [hurl]
    exact .pure _
  · rw [resolve_eq hurl]
    exact (linear_getTaskManager _).exceptBind fun a => .pure _

/-- An URL that does not parse is refused before any call. -/
theorem run_resolve_badUrl {e : String} (hurl : crates.parseUrl chain.rpcUrl = .error e)
    {r : Except AcpError ChainConfig} : Run (ChainConfig.resolve crates chain).run tr r
      ↔ tr = [] ∧ r = .error (.misconfigured s!"rpc_url parse: {e}") := by
  unfold ChainConfig.resolve
  rw [hurl]
  exact run_throw

theorem exists_run_resolve (o : ℕ → BookReply) : ∃ tr r, Answered chain o tr
    ∧ Run (ChainConfig.resolve crates chain).run tr r := by
  rcases hurl : crates.parseUrl chain.rpcUrl with e | _
  · exact ⟨[], _, ⟨0, rfl⟩, (run_resolve_badUrl hurl).2 ⟨rfl, rfl⟩⟩
  · obtain ⟨i, hi⟩ := exists_stops o chain.retries
    exact ⟨_, _, ⟨i + 1, rfl⟩, run_resolve hurl hi⟩

theorem answered_cons {reply : BookReply} {o : ℕ → BookReply} (h : Answered chain o tr) :
    Answered chain (fun i => i.casesOn reply o)
      (⟨.getTm chain.rpcUrl chain.addressBook chain.taskManagerId chain.timeout, reply⟩ :: tr) := by
  obtain ⟨k, rfl⟩ := h
  refine ⟨k + 1, ?_⟩
  rw [calls_succ]
  rfl

/-- Nothing else is called. -/
theorem answered_getTaskManager {retries : ℕ} {r : Except AcpError Address}
    (h : Run (getTaskManager crates chain retries).run tr r) : ∃ o, Answered chain o tr := by
  have hnil : Answered chain (fun _ => .timeout) [] := ⟨0, rfl⟩
  induction retries generalizing tr with
  | zero =>
    obtain ⟨tr₁, tr₂, reply, rfl, hcall, h⟩ := run_liftBind.1 h
    rw [run_call.1 hcall, (run_pure.1 h).1]
    exact ⟨_, answered_cons hnil⟩
  | succ retries ih =>
    obtain ⟨tr₁, tr₂, reply, rfl, hcall, h⟩ := run_liftBind.1 h
    rw [run_call.1 hcall]
    split at h
    · rw [(run_exceptPure.1 h).1]
      exact ⟨_, answered_cons hnil⟩
    · split_ifs at h
      · obtain ⟨o, ho⟩ := ih h
        exact ⟨_, answered_cons ho⟩
      · rw [(run_throw.1 h).1]
        exact ⟨_, answered_cons hnil⟩

theorem answered_resolve {r : Except AcpError ChainConfig}
    (h : Run (ChainConfig.resolve crates chain).run tr r) : ∃ o, Answered chain o tr := by
  rcases hurl : crates.parseUrl chain.rpcUrl with e | _
  · rw [((run_resolve_badUrl hurl).1 h).1]
    exact ⟨fun _ => .timeout, 0, rfl⟩
  · rw [resolve_eq hurl] at h
    rcases run_exceptBind.1 h with ⟨e, -, hget⟩ | ⟨tr₁, tr₂, a, rfl, hget, h⟩
    · exact answered_getTaskManager hget
    · rw [(run_pure.1 h).1, List.append_nil]
      exact answered_getTaskManager hget

/-- The outcomes determine the calls that are made, and what comes of them. -/
theorem run_resolve_unique {o : ℕ → BookReply} {tr' : Trace bootSig}
    {r r' : Except AcpError ChainConfig} (hto : Answered chain o tr) (hto' : Answered chain o tr')
    (h : Run (ChainConfig.resolve crates chain).run tr r)
    (h' : Run (ChainConfig.resolve crates chain).run tr' r') : tr = tr' ∧ r = r' := by
  obtain ⟨k, rfl⟩ := hto
  obtain ⟨k', rfl⟩ := hto'
  have hprefix : ∀ {a b : ℕ}, a ≤ b → ∃ s, calls chain o a ++ s = calls chain o b := by
    intro a b hab
    obtain ⟨d, rfl⟩ := Nat.exists_eq_add_of_le hab
    exact ⟨_, by rw [calls, calls, List.range_add, List.map_append]⟩
  rcases le_total k k' with hle | hle
  · obtain ⟨s, hs⟩ := hprefix hle
    exact linear_resolve.run_prefix h h' (hs.trans (List.append_nil _).symm)
  · obtain ⟨s, hs⟩ := hprefix hle
    obtain ⟨htr, hr⟩ := linear_resolve.run_prefix h' h (hs.trans (List.append_nil _).symm)
    exact ⟨htr.symm, hr.symm⟩

/-- What `ChainConfig::resolve` does, told `o`. -/
structure Bounded (crates : BootCrates) (chain : PendingChain) (o : ℕ → BookReply)
    (tr : Trace bootSig) (r : Except AcpError ChainConfig) : Prop where
  calls : (tr.length : ℕ∞) = min (firstDecisive o) ((chain.retries + 1 : ℕ) : ℕ∞)
  ok_iff : ∀ cfg, r = .ok cfg ↔ ∃ i ≤ chain.retries, firstDecisive o = ((i + 1 : ℕ) : ℕ∞)
    ∧ ∃ a, o i = .ok a ∧ a ≠ .zero 20 ∧ cfg = ⟨chain.rpcUrl, a, chain.timeout⟩
  refused : ∀ i ≤ chain.retries, firstDecisive o = ((i + 1 : ℕ) : ℕ∞) →
    o i = .ok (.zero 20) ∨ (∃ d text, o i = .error (some d) text) →
      ∃ msg, r = .error (.misconfigured msg)
  transient : ((chain.retries + 1 : ℕ) : ℕ∞) < firstDecisive o →
    ∃ e, bookAnswer crates chain (o chain.retries) = .error e ∧ e.isTransient ∧ r = .error e

theorem Stops.eq_of_first {o : ℕ → BookReply} {retries i j : ℕ} (h : Stops o retries i)
    (hj : j ≤ retries) (hfirst : firstDecisive o = ((j + 1 : ℕ) : ℕ∞)) : j = i := by
  have hle : ((j + 1 : ℕ) : ℕ∞) ≤ ((retries + 1 : ℕ) : ℕ∞) := by
    exact_mod_cast Nat.succ_le_succ hj
  have heq := h.attempts
  rw [hfirst, min_eq_left hle] at heq
  have hnat : i + 1 = j + 1 := by exact_mod_cast heq
  omega

theorem verdict_eq_ok {x : Except AcpError Address} {cfg : ChainConfig} :
    verdict crates chain x = .ok cfg
      ↔ ∃ a, x = .ok a ∧ a ≠ .zero 20 ∧ cfg = ⟨chain.rpcUrl, a, chain.timeout⟩ := by
  rcases x with e | a
  · simp [verdict]
  · by_cases h : a = .zero 20
    · simp [verdict, h]
    · simp [verdict, h, eq_comm]

theorem verdict_zero :
    ∃ msg, verdict crates chain (.ok (.zero 20)) = .error (.misconfigured msg) := by
  unfold verdict
  exact ⟨_, if_pos rfl⟩

theorem bounded_resolve {o : ℕ → BookReply} {r : Except AcpError ChainConfig}
    (hurl : crates.parseUrl chain.rpcUrl = .ok ()) (hto : Answered chain o tr)
    (h : Run (ChainConfig.resolve crates chain).run tr r) : Bounded crates chain o tr r := by
  obtain ⟨i, hi⟩ := exists_stops o chain.retries
  obtain ⟨rfl, rfl⟩ := run_resolve_unique hto ⟨i + 1, rfl⟩ h (run_resolve hurl hi)
  refine ⟨by rw [length_calls, hi.attempts], fun cfg => ?_, fun j hj hfirst hrefused => ?_,
    fun hlt => ?_⟩
  · rw [verdict_eq_ok]
    constructor
    · rintro ⟨a, ha, hne, hcfg⟩
      rw [bookAnswer_eq_ok] at ha
      exact ⟨i, hi.le, firstDecisive_eq (by rw [ha]; trivial) hi.before, a, ha, hne, hcfg⟩
    · rintro ⟨j, hj, hfirst, a, ha, hne, hcfg⟩
      obtain rfl := hi.eq_of_first hj hfirst
      exact ⟨a, bookAnswer_eq_ok.2 ha, hne, hcfg⟩
  · obtain rfl := hi.eq_of_first hj hfirst
    rcases hrefused with hzero | ⟨d, text, hrevert⟩
    · rw [hzero]
      exact verdict_zero
    · rw [hrevert]
      exact ⟨_, rfl⟩
  · have hd : ¬ (o i).Decisive := by
      intro hd
      rw [firstDecisive_eq hd hi.before] at hlt
      have hnat : chain.retries + 1 < i + 1 := by exact_mod_cast hlt
      have := hi.le
      omega
    obtain rfl := hi.last.resolve_left hd
    rcases ha : bookAnswer crates chain (o chain.retries) with e | a
    · exact ⟨e, rfl, (isTransient_bookAnswer ha).2 hd, rfl⟩
    · refine absurd ?_ hd
      rw [bookAnswer_eq_ok.1 ha]
      trivial

/-! ## All the chains -/

/-- What a chain's resolution comes to, told its outcomes. -/
def Resolution (crates : BootCrates) (chain : PendingChain) (o : ℕ → BookReply)
    (r : Except AcpError ChainConfig) : Prop :=
  ∃ tr, Answered chain o tr ∧ Run (ChainConfig.resolve crates chain).run tr r

theorem Resolution.unique {o : ℕ → BookReply} {r r' : Except AcpError ChainConfig}
    (h : Resolution crates chain o r) (h' : Resolution crates chain o r') : r = r' := by
  obtain ⟨tr, hto, hrun⟩ := h
  obtain ⟨tr', hto', hrun'⟩ := h'
  exact (run_resolve_unique hto hto' hrun hrun').2

/-- The trace is of the chains' resolutions, one after the other up to the first that fails, each
told its own outcomes. -/
def AnsweredInTurn (crates : BootCrates) (o : UInt64 → ℕ → BookReply) :
    List (UInt64 × PendingChain) → Trace bootSig → Prop
  | [], tr => tr = []
  | (chainId, chain) :: rest, tr => ∃ tr₁ tr₂ r, tr = tr₁ ++ tr₂
    ∧ Answered chain (o chainId) tr₁ ∧ Run (ChainConfig.resolve crates chain).run tr₁ r
    ∧ if r.isOk then AnsweredInTurn crates o rest tr₂ else tr₂ = []

/-- A resolution of one chain is the first of the chains', and the rest go on from it. -/
theorem run_resolveChains_cons {chainId : UInt64} {rest : List (UInt64 × PendingChain)}
    {chains : UInt64 → Option ChainConfig} {r : Exec BootError ChainsVerifierConfig} :
    Run (resolveChains crates ((chainId, chain) :: rest) chains).run tr r
      ↔ (∃ e, r = .error (.err (.taskManager chainId e))
        ∧ Run (ChainConfig.resolve crates chain).run tr (.error e))
      ∨ ∃ tr₁ tr₂ cfg, tr = tr₁ ++ tr₂ ∧ Run (ChainConfig.resolve crates chain).run tr₁ (.ok cfg)
        ∧ Run (resolveChains crates rest
          (Function.update chains chainId (some cfg))).run tr₂ r := by
  rw [resolveChains, run_exceptBind]
  simp only [run_adapt_ok, run_adapt_error]
  constructor
  · rintro (⟨_, rfl, e, rfl, h⟩ | h)
    · exact .inl ⟨e, rfl, h⟩
    · exact .inr h
  · rintro (⟨e, rfl, h⟩ | h)
    · exact .inl ⟨_, rfl, e, rfl, h⟩
    · exact .inr h

theorem exists_run_resolveChains (o : UInt64 → ℕ → BookReply)
    (order : List (UInt64 × PendingChain)) (chains : UInt64 → Option ChainConfig) : ∃ tr r,
      AnsweredInTurn crates o order tr ∧ Run (resolveChains crates order chains).run tr r := by
  induction order generalizing chains with
  | nil => exact ⟨[], .ok ⟨chains⟩, rfl, run_exceptPure.2 ⟨rfl, rfl⟩⟩
  | cons q rest ih =>
    obtain ⟨chainId, chain⟩ := q
    obtain ⟨tr₁, r₁, hto, h₁⟩ := @exists_run_resolve crates chain (o chainId)
    rcases r₁ with e | cfg
    · exact ⟨tr₁, _, ⟨tr₁, [], .error e, by simp, hto, h₁, rfl⟩,
        run_resolveChains_cons.2 (.inl ⟨e, rfl, h₁⟩)⟩
    · obtain ⟨tr₂, r, hto₂, h₂⟩ := ih (Function.update chains chainId (some cfg))
      exact ⟨tr₁ ++ tr₂, r, ⟨tr₁, tr₂, .ok cfg, rfl, hto, h₁, hto₂⟩,
        run_resolveChains_cons.2 (.inr ⟨tr₁, tr₂, cfg, rfl, h₁, h₂⟩)⟩

/-- Told each chain's own outcomes, the loop returns every chain's own resolution, or the error of
one that failed. -/
theorem resolveChains_told {o : UInt64 → ℕ → BookReply} {order : List (UInt64 × PendingChain)}
    {chains : UInt64 → Option ChainConfig} {r : Exec BootError ChainsVerifierConfig}
    (hnodup : (order.map Prod.fst).Nodup) (hto : AnsweredInTurn crates o order tr)
    (h : Run (resolveChains crates order chains).run tr r) :
    (∃ cfg, r = .ok cfg
      ∧ (∀ q ∈ order, ∃ c, cfg.get q.1 = some c ∧ Resolution crates q.2 (o q.1) (.ok c))
      ∧ ∀ chainId, chainId ∉ order.map Prod.fst → cfg.get chainId = chains chainId)
    ∨ ∃ q ∈ order, ∃ e, Resolution crates q.2 (o q.1) (.error e)
      ∧ r = .error (.err (.taskManager q.1 e)) := by
  induction order generalizing chains tr with
  | nil =>
    obtain ⟨-, rfl⟩ := run_exceptPure.1 h
    exact .inl ⟨⟨chains⟩, rfl, by simp, fun _ _ => rfl⟩
  | cons q rest ih =>
    obtain ⟨chainId, chain⟩ := q
    obtain ⟨s₁, s₂, r₁, rfl, hto₁, h₁, hrest⟩ := hto
    rw [List.map_cons, List.nodup_cons] at hnodup
    rcases run_resolveChains_cons.1 h with ⟨e, rfl, he⟩ | ⟨t₁, t₂, c, htr, hc, h⟩
    · obtain ⟨-, rfl⟩ := linear_resolve.run_prefix h₁ he (List.append_nil _).symm
      exact .inr ⟨_, List.mem_cons_self, e, ⟨s₁, hto₁, h₁⟩, rfl⟩
    obtain ⟨rfl, rfl⟩ := linear_resolve.run_prefix h₁ hc htr
    rw [List.append_cancel_left htr] at hrest
    rcases ih hnodup.2 hrest h with ⟨cfg, rfl, hserved, hkept⟩ | ⟨q, hq, e, he, hr⟩
    · refine .inl ⟨cfg, rfl, fun q hq => ?_, fun id hid => ?_⟩
      · rcases List.mem_cons.1 hq with rfl | hq
        · refine ⟨c, ?_, ⟨s₁, hto₁, h₁⟩⟩
          rw [hkept chainId hnodup.1, Function.update_self]
        · exact hserved q hq
      · rw [List.map_cons, List.mem_cons, not_or] at hid
        rw [hkept id hid.2, Function.update_of_ne hid.1]
    · exact .inr ⟨q, List.mem_cons_of_mem _ hq, e, he, hr⟩

/-- What the resolution of a map of chains comes to, told each chain's outcomes. -/
structure AllOrNothing (crates : BootCrates) (o : UInt64 → ℕ → BookReply)
    (pending : List (UInt64 × PendingChain)) (r : Exec BootError ChainsVerifierConfig) :
    Prop where
  ok_iff : (∃ cfg, r = .ok cfg) ↔ ∀ q ∈ pending, ∃ c, Resolution crates q.2 (o q.1) (.ok c)
  ids : ∀ cfg, r = .ok cfg →
    ∀ chainId, (cfg.get chainId).isSome ↔ chainId ∈ pending.map Prod.fst
  own : ∀ cfg, r = .ok cfg →
    ∀ q ∈ pending, ∃ c, cfg.get q.1 = some c ∧ Resolution crates q.2 (o q.1) (.ok c)
  failed : ∀ e, r = .error e →
    ∃ q ∈ pending, ∃ err, Resolution crates q.2 (o q.1) (.error err)
      ∧ e = .err (.taskManager q.1 err)

theorem allOrNothing_resolveChains {o : UInt64 → ℕ → BookReply}
    {pending order : List (UInt64 × PendingChain)} {r : Exec BootError ChainsVerifierConfig}
    (hnodup : (pending.map Prod.fst).Nodup) (horder : order.Perm pending)
    (hto : AnsweredInTurn crates o order tr)
    (h : Run (resolveChains crates order fun _ => none).run tr r) :
    AllOrNothing crates o pending r := by
  have hkeys : (order.map Prod.fst).Perm (pending.map Prod.fst) := horder.map _
  rcases resolveChains_told (hkeys.nodup_iff.2 hnodup) hto h with
    ⟨cfg, rfl, hserved, hkept⟩ | ⟨q, hq, e, he, rfl⟩
  · have hown : ∀ q ∈ pending, ∃ c, cfg.get q.1 = some c
        ∧ Resolution crates q.2 (o q.1) (.ok c) := fun q hq => hserved q (horder.mem_iff.2 hq)
    refine ⟨⟨fun _ q hq => ?_, fun _ => ⟨cfg, rfl⟩⟩, fun cfg' hcfg chainId => ?_,
      fun cfg' hcfg => ?_, fun e he => ?_⟩
    · obtain ⟨c, -, hc⟩ := hown q hq
      exact ⟨c, hc⟩
    · cases hcfg
      constructor
      · intro hsome
        by_contra hid
        rw [hkept chainId fun hmem => hid (hkeys.mem_iff.1 hmem)] at hsome
        simp at hsome
      · intro hid
        obtain ⟨q, hq, rfl⟩ := List.mem_map.1 hid
        obtain ⟨c, hc, -⟩ := hown q hq
        rw [hc]
        rfl
    · cases hcfg
      exact hown
    · cases he
  · have hfail := horder.mem_iff.1 hq
    refine ⟨⟨fun h => ?_, fun hall => ?_⟩, fun cfg hcfg => ?_, fun cfg hcfg => ?_,
      fun e' he' => ?_⟩
    · obtain ⟨cfg, hcfg⟩ := h
      cases hcfg
    · obtain ⟨c, hc⟩ := hall q hfail
      cases he.unique hc
    · cases hcfg
    · cases hcfg
    · cases he'
      exact ⟨q, hfail, e, he, rfl⟩

/-- The map is walked in every order. -/
theorem run_resolve_chains {pending : List (UInt64 × PendingChain)}
    {r : Exec BootError ChainsVerifierConfig} :
    Run (ChainsVerifierConfig.resolve crates pending).run tr r ↔ ∃ order, order.Perm pending
      ∧ Run (resolveChains crates order fun _ => none).run tr r := by
  rw [ChainsVerifierConfig.resolve, walk, run_liftBind]
  constructor
  · rintro ⟨tr₁, tr₂, order, rfl, hwalk, h⟩
    obtain ⟨rfl, hperm⟩ := run_anyOrder hwalk
    exact ⟨order, hperm, h⟩
  · rintro ⟨order, hperm, h⟩
    exact ⟨[], tr, order, rfl, run_anyOrder_of_perm hperm, h⟩

/-- Every run of a chain's resolution is told by some outcomes. A chain whose URL parses is resolved
in as many calls as it takes to a decisive outcome, at most `retries + 1`, and by that outcome; a
bad URL is refused without a call. The chains of a map, in whatever order, are resolved all, each
by its own outcomes, or not at all, with the error of one that failed. -/
theorem resolution_bounded (crates : BootCrates) :
    (∀ chain tr r, Run (ChainConfig.resolve crates chain).run tr r → ∃ o, Answered chain o tr)
    ∧ (∀ chain o, crates.parseUrl chain.rpcUrl = .ok () →
      (∃ tr r, Answered chain o tr ∧ Run (ChainConfig.resolve crates chain).run tr r)
      ∧ ∀ tr r, Answered chain o tr → Run (ChainConfig.resolve crates chain).run tr r →
        Bounded crates chain o tr r)
    ∧ (∀ chain e, crates.parseUrl chain.rpcUrl = .error e → ∀ tr r,
      Run (ChainConfig.resolve crates chain).run tr r
        ↔ tr = [] ∧ r = .error (.misconfigured s!"rpc_url parse: {e}"))
    ∧ ∀ pending : List (UInt64 × PendingChain), (pending.map Prod.fst).Nodup →
      (∀ tr r, Run (ChainsVerifierConfig.resolve crates pending).run tr r ↔
        ∃ order, order.Perm pending
          ∧ Run (resolveChains crates order fun _ => none).run tr r)
      ∧ ∀ order, order.Perm pending → ∀ o,
        (∃ tr r, AnsweredInTurn crates o order tr
          ∧ Run (resolveChains crates order fun _ => none).run tr r)
        ∧ ∀ tr r, AnsweredInTurn crates o order tr →
          Run (resolveChains crates order fun _ => none).run tr r →
            AllOrNothing crates o pending r := by
  refine ⟨fun chain tr r => answered_resolve,
    fun chain o hurl => ⟨exists_run_resolve o, fun tr r hto h => ?_⟩,
    fun chain e hurl tr r => run_resolve_badUrl hurl,
    fun pending hnodup => ⟨fun tr r => run_resolve_chains, fun order horder o =>
      ⟨exists_run_resolveChains o order _, fun tr r hto h => ?_⟩⟩⟩
  · exact bounded_resolve hurl hto h
  · exact allOrNothing_resolveChains hnodup horder hto h

/-- A chain with one more attempt, whose book is silent once and then answers. -/
def flakyChain : PendingChain := ⟨"http://localhost:8545", 5000, cofheAddressBook, 1, 1⟩

def flakyOutcomes : ℕ → BookReply
  | 0 => .timeout
  | _ + 1 => .ok (.ofNat 20 1)

/-- Two such chains, of which the book answers for the first only. -/
def flakyChains : List (UInt64 × PendingChain) := [(1, flakyChain), (2, flakyChain)]

def unregisteredOutcomes (chainId : UInt64) : ℕ → BookReply :=
  if chainId = 1 then flakyOutcomes else fun _ => .ok (.zero 20)

theorem resolution_bounded_flaky :
    (∃ tr cfg, tr.length = 2 ∧ Run (ChainConfig.resolve sampleBoot flakyChain).run tr (.ok cfg)
      ∧ cfg.taskManager = .ofNat 20 1)
    ∧ (∃ tr cfg, Run (ChainsVerifierConfig.resolve sampleBoot flakyChains).run tr (.ok cfg)
      ∧ (cfg.get 1).isSome ∧ (cfg.get 2).isSome)
    ∧ ∃ tr msg, Run (ChainsVerifierConfig.resolve sampleBoot flakyChains).run tr
      (.error (.err (.taskManager 2 (.misconfigured msg)))) := by
  obtain ⟨-, hone, -, hmap⟩ := resolution_bounded sampleBoot
  obtain ⟨⟨tr, r, hto, hrun⟩, hbounded⟩ := hone flakyChain flakyOutcomes rfl
  have hb := hbounded tr r hto hrun
  have hfirst : firstDecisive flakyOutcomes = ((1 + 1 : ℕ) : ℕ∞) := by
    refine @firstDecisive_eq flakyOutcomes 1 trivial fun j hj => ?_
    obtain rfl : j = 0 := by omega
    exact not_false
  have hcalls := hb.calls
  rw [hfirst, show flakyChain.retries = 1 from rfl, min_self] at hcalls
  obtain rfl := (hb.ok_iff _).2 ⟨1, le_rfl, hfirst, .ofNat 20 1, rfl, by decide, rfl⟩
  refine ⟨⟨tr, _, by exact_mod_cast hcalls, hrun, rfl⟩, ?_⟩
  obtain ⟨hruns, htold⟩ := hmap flakyChains (by decide)
  refine ⟨?_, ?_⟩
  · obtain ⟨⟨tr', r', hto', hrun'⟩, hall⟩ := htold flakyChains (.refl _) fun _ => flakyOutcomes
    have ha := hall tr' r' hto' hrun'
    obtain ⟨cfg, rfl⟩ := ha.ok_iff.2 fun q hq => by
      rcases List.mem_pair.1 hq with rfl | rfl
      · exact ⟨_, tr, hto, hrun⟩
      · exact ⟨_, tr, hto, hrun⟩
    exact ⟨tr', cfg, (hruns _ _).2 ⟨_, .refl _, hrun'⟩, (ha.ids cfg rfl 1).2 (by simp [flakyChains]),
      (ha.ids cfg rfl 2).2 (by simp [flakyChains])⟩
  · obtain ⟨⟨tr₂, r₂, hto₂, hrun₂⟩, hbounded₂⟩ :=
      hone flakyChain (unregisteredOutcomes 2) rfl
    obtain ⟨msg, rfl⟩ := (hbounded₂ tr₂ r₂ hto₂ hrun₂).refused 0 (Nat.zero_le _)
      (@firstDecisive_eq (unregisteredOutcomes 2) 0 trivial fun j hj => absurd hj (by omega))
      (.inl rfl)
    have hrefused : Resolution sampleBoot flakyChain (unregisteredOutcomes 2)
      (.error (.misconfigured msg)) := ⟨tr₂, hto₂, hrun₂⟩
    obtain ⟨⟨tr', r', hto', hrun'⟩, hall⟩ := htold flakyChains (.refl _) unregisteredOutcomes
    have ha := hall tr' r' hto' hrun'
    rcases r' with e | cfg
    · obtain ⟨q, hq, err, hres, rfl⟩ := ha.failed e rfl
      rcases List.mem_pair.1 hq with rfl | rfl
      · cases hres.unique ⟨tr, hto, hrun⟩
      · cases hres.unique hrefused
        exact ⟨tr', msg, (hruns _ _).2 ⟨_, .refl _, hrun'⟩⟩
    · obtain ⟨c, hc⟩ := ha.ok_iff.1 ⟨cfg, rfl⟩ (2, flakyChain) (by simp [flakyChains])
      cases hc.unique hrefused

end Teecryptor
