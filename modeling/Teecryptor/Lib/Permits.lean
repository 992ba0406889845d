import Teecryptor.Lib.System
import Mathlib.Algebra.BigOperators.Group.Finset.Piecewise

/-!
# Permits that threads take and give back

Some events take a permit and some give one back. A program that repays takes one at a time, gives
back only what it took, and ends with nothing in hand (`Repays`). When every thread's program
repays, the threads that hold a permit and the free ones always add up to those there were at the
start (`Reachable.conserved`), however the threads interleave and wherever one is dropped.
-/

namespace Interact

open Prog

variable {S : Sig} {α β : Type} {take give : Event S → Bool}

/-- The trace has taken a permit and not given it back. -/
def Holds (take give : Event S → Bool) (tr : Trace S) : Prop := tr.countP give < tr.countP take

instance (take give : Event S → Bool) : DecidablePred (Holds take give) :=
  fun _ => inferInstanceAs (Decidable (_ < _))

/-- A program that takes at most `n` permits, one at a time, gives back only what it took, and has
given everything back at its end. -/
structure Repays (take give : Event S → Bool) (n : ℕ) (p : Prog S α) : Prop where
  most : ∀ {tr p'}, Steps p tr p' → tr.countP take ≤ n
  part : ∀ {tr p'}, Steps p tr p' →
    tr.countP give ≤ tr.countP take ∧ tr.countP take ≤ tr.countP give + 1
  whole : ∀ {tr a}, Run p tr a → tr.countP take = tr.countP give

variable {m n : ℕ}

theorem Repays.mono {p : Prog S α} (h : Repays take give m p) (hn : m ≤ n) :
    Repays take give n p :=
  ⟨fun hs => (h.most hs).trans hn, h.part, h.whole⟩

theorem countP_of_only {Q : Event S → Prop} {tr : Trace S} (h : Only Q tr) {f : Event S → Bool}
    (hf : ∀ e, Q e → f e = false) : tr.countP f = 0 := by
  rw [List.countP_eq_zero]
  intro e he
  simp [hf e (h e he)]

/-- A program without any of the events takes nothing. -/
theorem repays_of_only {Q : Event S → Prop} {p : Prog S α} (h : Always (Only Q) p)
    (ht : ∀ e, Q e → take e = false) (hg : ∀ e, Q e → give e = false) :
    Repays take give 0 p where
  most := fun hs => (countP_of_only (h _ _ hs) ht).le
  part := by
    intro tr p' hs
    rw [countP_of_only (h tr p' hs) ht, countP_of_only (h tr p' hs) hg]
    omega
  whole := by
    intro tr a hr
    rw [countP_of_only (h.run hr) ht, countP_of_only (h.run hr) hg]

theorem repays_pure (a : α) : Repays take give 0 (Prog.pure a) :=
  repays_of_only (Q := fun _ => False) ((mixes_only _).pure a) (fun _ h => h.elim) fun _ h => h.elim

theorem Repays.bind {p : Prog S α} {f : α → Prog S β} (hp : Repays take give m p)
    (hf : ∀ a, Repays take give n (f a)) : Repays take give (m + n) (p.bind f) where
  most := by
    intro tr r h
    rcases steps_bind h with ⟨p', h, -⟩ | ⟨tr₁, tr₂, a, rfl, h₁, h₂⟩
    · exact (hp.most h).trans (Nat.le_add_right m n)
    · rw [List.countP_append]
      exact Nat.add_le_add (hp.most h₁) ((hf a).most h₂)
  part := by
    intro tr r h
    rcases steps_bind h with ⟨p', h, -⟩ | ⟨tr₁, tr₂, a, rfl, h₁, h₂⟩
    · exact hp.part h
    · have h₁ := hp.whole h₁
      have h₂ := (hf a).part h₂
      simp only [List.countP_append]
      omega
  whole := by
    intro tr b h
    obtain ⟨tr₁, tr₂, a, rfl, h₁, h₂⟩ := run_bind.1 h
    simp only [List.countP_append, hp.whole h₁, (hf a).whole h₂]

theorem Repays.exceptBind {ε : Type} {x : ExceptT ε (Prog S) α} {f : α → ExceptT ε (Prog S) β}
    (hx : Repays take give m x.run) (hf : ∀ a, Repays take give n (f a).run) :
    Repays take give (m + n) (x >>= f).run := by
  rw [ExceptT.run_bind, bind_eq]
  refine hx.bind fun r => ?_
  rcases r with e | a
  · exact (repays_pure _).mono (Nat.zero_le n)
  · exact hf a

theorem Repays.lift {ε : Type} {p : Prog S α} (hp : Repays take give n p) :
    Repays take give n (ExceptT.lift p : ExceptT ε (Prog S) α).run := by
  rw [ExceptT.run_lift]
  exact hp.bind fun a => repays_pure _

/-! ## Threads -/

variable {M : Machine S} {ι R : Type} {prog : ι → Prog S R} {s₀ : M.State} {c c' : Config M ι R}

/-- The threads that hold a permit. -/
def Config.holding (take give : Event S → Bool) (c : Config M ι R) : Finset ℕ :=
  (Finset.range c.next).filter fun pid => (c.threads pid).any fun t => Holds take give t.trace

theorem mem_holding (hc : PoolOk prog c) {pid : ℕ} : pid ∈ c.holding take give ↔
    ∃ t, c.threads pid = some t ∧ Holds take give t.trace := by
  have hlt : ∀ t, c.threads pid = some t → pid < c.next := by
    intro t ht
    by_contra hge
    rw [hc.fresh pid (by omega)] at ht
    cases ht
  simp only [Config.holding, Finset.mem_filter, Finset.mem_range, Option.any_eq_true,
    decide_eq_true_eq]
  exact ⟨fun ⟨_, h⟩ => h, fun ⟨t, ht, h⟩ => ⟨hlt t ht, t, ht, h⟩⟩

/-- What a thread, if there is one, has in hand. -/
def inHand (take give : Event S → Bool) : Option (Thread S ι R) → ℕ
  | some t => t.trace.countP take - t.trace.countP give
  | none => 0

@[simp] theorem inHand_some (t : Thread S ι R) :
    inHand take give (some t) = t.trace.countP take - t.trace.countP give := rfl

@[simp] theorem inHand_none : inHand take give (none : Option (Thread S ι R)) = 0 := rfl

theorem card_holding (hp : ∀ i, Repays take give n (prog i)) (hc : PoolOk prog c) :
    (c.holding take give).card
      = ∑ pid ∈ Finset.range c.next, inHand take give (c.threads pid) := by
  rw [Config.holding, Finset.card_filter]
  refine Finset.sum_congr rfl fun pid _ => ?_
  rcases ht : c.threads pid with _ | t
  · simp
  · have hpart := (hp t.job).part (hc.thread pid t ht).steps
    by_cases h : t.trace.countP give < t.trace.countP take
    · simp only [Option.any_some, Holds, h, decide_true, if_true, inHand_some]
      omega
    · simp only [Option.any_some, Holds, h, decide_false, inHand_some]
      simp only [Bool.false_eq_true, if_false]
      omega

/-- One thread changes, and the others hold what they held. -/
theorem sum_inHand_update (take give : Event S → Bool) (threads : ℕ → Option (Thread S ι R))
    {next pid : ℕ} (hpid : pid < next) (t : Option (Thread S ι R)) :
    (∑ i ∈ Finset.range next, inHand take give (Function.update threads pid t i))
        + inHand take give (threads pid)
      = (∑ i ∈ Finset.range next, inHand take give (threads i)) + inHand take give t := by
  have hmem : pid ∈ Finset.range next := Finset.mem_range.2 hpid
  rw [← Finset.add_sum_erase _ _ hmem, ← Finset.add_sum_erase _ (fun i => inHand take give
    (threads i)) hmem, Function.update_self]
  have hsame : ∑ i ∈ (Finset.range next).erase pid, inHand take give (Function.update threads pid t i)
      = ∑ i ∈ (Finset.range next).erase pid, inHand take give (threads i) :=
    Finset.sum_congr rfl fun i hi => by rw [Function.update_of_ne (Finset.ne_of_mem_erase hi)]
  omega

/-- How a machine keeps the permits: taking and giving move one permit between the free ones and
the thread, and a dropped thread's permit becomes free. -/
structure Machine.Keeps (M : Machine S) (take give : Event S → Bool) (free : M.State → ℕ) :
    Prop where
  perform : ∀ {s s' : M.State} {o : S.Op} {x : S.Ans o}, M.perform s o x s' →
    free s' + (if take ⟨o, x⟩ then 1 else 0) = free s + if give ⟨o, x⟩ then 1 else 0
  env : ∀ {s s' : M.State}, M.env s s' → free s' = free s
  release : ∀ (s : M.State) (tr : Trace S),
    free (M.release s tr) = free s + (tr.countP take - tr.countP give)

variable {free : M.State → ℕ}

theorem Step.conserved (hM : M.Keeps take give free) (hp : ∀ i, Repays take give n (prog i))
    (hc : PoolOk prog c) (h : Step prog c c') :
    (∑ pid ∈ Finset.range c'.next, inHand take give (c'.threads pid)) + free c'.state
      = (∑ pid ∈ Finset.range c.next, inHand take give (c.threads pid)) + free c.state := by
  have hlt : ∀ {pid t}, c.threads pid = some t → pid < c.next := by
    intro pid t ht
    by_contra hge
    rw [hc.fresh pid (by omega)] at ht
    cases ht
  cases h with
  | spawn i =>
    simp only [Config.spawn, Finset.sum_range_succ, Function.update_self]
    have hsame : ∑ pid ∈ Finset.range c.next, inHand take give
        (Function.update c.threads c.next (some ⟨i, [], prog i⟩) pid)
        = ∑ pid ∈ Finset.range c.next, inHand take give (c.threads pid) :=
      Finset.sum_congr rfl fun pid hpid => by
        rw [Function.update_of_ne (Finset.mem_range.1 hpid).ne]
    rw [hsame]
    simp
  | @perform pid t o k x s ht hr hs =>
    have hsum := sum_inHand_update take give c.threads (hlt ht)
      (some { t with trace := t.trace ++ [⟨o, x⟩], rest := k x })
    have hsteps := (hc.thread pid t ht).steps
    have hbefore := (hp t.job).part hsteps
    rw [hr] at hsteps
    have hafter := (hp t.job).part (hsteps.snoc x)
    have hfree := hM.perform hs
    rw [ht] at hsum
    simp only [inHand_some, List.countP_append, List.countP_singleton] at hsum hafter
    simp only [Config.performed]
    omega
  | @left pid t p q ht hr =>
    have hsum := sum_inHand_update take give c.threads (hlt ht) (some { t with rest := p })
    rw [ht] at hsum
    simp only [inHand_some] at hsum
    simp only [Config.setRest]
    omega
  | @right pid t p q ht hr =>
    have hsum := sum_inHand_update take give c.threads (hlt ht) (some { t with rest := q })
    rw [ht] at hsum
    simp only [inHand_some] at hsum
    simp only [Config.setRest]
    omega
  | env hs => simp only [hM.env hs]
  | @drop pid t ht =>
    have hsum := sum_inHand_update take give c.threads (hlt ht) none
    have hfree := hM.release c.state t.trace
    rw [ht] at hsum
    simp only [inHand_some, inHand_none] at hsum
    simp only [Config.drop]
    omega

/-- The permits in the hands of threads and the free ones are as many as there were. -/
theorem Reachable.conserved (h : Reachable prog s₀ c) (hM : M.Keeps take give free)
    (hp : ∀ i, Repays take give n (prog i)) :
    (c.holding take give).card + free c.state = free s₀ := by
  rw [card_holding hp h.poolOk]
  induction h with
  | start => simp [Config.start]
  | step hc hs ih =>
    rw [hs.conserved hM hp hc.poolOk]
    exact ih

/-- A thread that returned holds nothing. -/
theorem Reachable.holding_unfinished (h : Reachable prog s₀ c)
    (hp : ∀ i, Repays take give n (prog i)) {pid : ℕ} (hpid : pid ∈ c.holding take give) :
    ∃ t, c.threads pid = some t ∧ ∀ r, t.rest ≠ .pure r := by
  obtain ⟨t, ht, hholds⟩ := (mem_holding h.poolOk).1 hpid
  refine ⟨t, ht, fun r hr => ?_⟩
  have hwhole := (hp t.job).whole (h.run ht hr)
  unfold Holds at hholds
  omega

end Interact
