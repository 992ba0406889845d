import Teecryptor.Lib.System
import Mathlib.Algebra.BigOperators.Group.Finset.Piecewise
import Mathlib.Algebra.BigOperators.Ring.Finset
import Mathlib.Algebra.Order.BigOperators.Group.Finset

/-!
# How often threads do something

`AtMost f n p`: no partial run of `p` has more than `n` events of the kind `f`. What each program
keeps in every partial run between its events of one kind and those of another, all threads keep
together, in every interleaving (`Reachable.count_le`).
-/

namespace Interact

open Prog

variable {S : Sig} {α β : Type} {f g : Event S → Bool} {m n : ℕ}

theorem Shuffle.countP {γ : Type*} {l₁ l₂ l : List γ} (h : Shuffle l₁ l₂ l) (f : γ → Bool) :
    l.countP f = l₁.countP f + l₂.countP f := by
  induction h with
  | nil => rfl
  | left _ ih =>
    simp only [List.countP_cons, ih]
    omega
  | right _ ih =>
    simp only [List.countP_cons, ih]
    omega

/-- Every partial run of `p` has at most `n` events of the kind `f`. -/
def AtMost (f : Event S → Bool) (n : ℕ) (p : Prog S α) : Prop :=
  Always (fun tr => tr.countP f ≤ n) p

theorem AtMost.mono {p : Prog S α} (h : AtMost f m p) (hn : m ≤ n) : AtMost f n p :=
  fun tr p' hs => (h tr p' hs).trans hn

theorem atMost_of_only {Q : Event S → Prop} {p : Prog S α} (h : Always (Only Q) p)
    (hf : ∀ e, Q e → f e = false) : AtMost f 0 p := by
  intro tr p' hs
  rw [Nat.le_zero, List.countP_eq_zero]
  intro e he
  simp [hf e (h tr p' hs e he)]

theorem atMost_pure (a : α) : AtMost f 0 (Prog.pure a : Prog S α) :=
  atMost_of_only (Q := fun _ => False) ((mixes_only _).pure a) fun _ h => h.elim

theorem atMost_call (o : S.Op) : AtMost f 1 (Prog.call o : Prog S (S.Ans o)) := by
  intro tr p' h
  cases h with
  | refl => exact Nat.zero_le 1
  | op h =>
    cases h
    exact List.countP_le_length

theorem AtMost.bind {p : Prog S α} {k : α → Prog S β} (hp : AtMost f m p)
    (hk : ∀ a, AtMost f n (k a)) : AtMost f (m + n) (p.bind k) := by
  intro tr r h
  rcases steps_bind h with ⟨p', h, -⟩ | ⟨tr₁, tr₂, a, rfl, h₁, h₂⟩
  · exact (hp tr p' h).trans (Nat.le_add_right m n)
  · rw [List.countP_append]
    exact Nat.add_le_add (hp tr₁ _ h₁) (hk a _ _ h₂)

theorem AtMost.join {p : Prog S α} {q : Prog S β} (hp : AtMost f m p) (hq : AtMost f n q) :
    AtMost f (m + n) (Prog.join p q) := by
  intro tr r h
  obtain ⟨tr₁, tr₂, p', q', hs, h₁, h₂⟩ := steps_join p q tr r h
  rw [hs.countP]
  exact Nat.add_le_add (hp _ _ h₁) (hq _ _ h₂)

theorem AtMost.exceptBind {ε : Type} {x : ExceptT ε (Prog S) α} {k : α → ExceptT ε (Prog S) β}
    (hx : AtMost f m x.run) (hk : ∀ a, AtMost f n (k a).run) : AtMost f (m + n) (x >>= k).run := by
  rw [ExceptT.run_bind, bind_eq]
  refine hx.bind fun r => ?_
  rcases r with e | a
  · exact (atMost_pure _).mono (Nat.zero_le n)
  · exact hk a

theorem AtMost.lift {ε : Type} {p : Prog S α} (hp : AtMost f n p) :
    AtMost f n (ExceptT.lift p : ExceptT ε (Prog S) α).run := by
  rw [ExceptT.run_lift]
  exact hp.bind fun a => atMost_pure _

/-- There are at most `k` times as many events of the kind `f` as of the kind `g`. -/
def Within (k : ℕ) (f g : Event S → Bool) (tr : Trace S) : Prop := tr.countP f ≤ k * tr.countP g

theorem mixes_within (k : ℕ) (f g : Event S → Bool) : Mixes (Within k f g) where
  nil := Nat.zero_le _
  shuffle := by
    intro l₁ l₂ l hs h₁ h₂
    unfold Within at h₁ h₂ ⊢
    rw [hs.countP, hs.countP, Nat.mul_add]
    exact Nat.add_le_add h₁ h₂

theorem within_of_none {k : ℕ} {tr : Trace S} (h : tr.countP f = 0) : Within k f g tr := by
  unfold Within
  rw [h]
  exact Nat.zero_le _

/-! ## Threads -/

variable {M : Machine S} {ι R : Type} {prog : ι → Prog S R} {s₀ : M.State} {c : Config M ι R}

/-- How many events of the kind `f` there were. -/
def Config.count (c : Config M ι R) (f : Event S → Bool) : ℕ := c.hist.countP fun e => f e.event

/-- The events of the history are those of the threads there have been. -/
theorem count_eq_sum (hc : PoolOk prog c) (f : Event S → Bool) :
    c.count f = ∑ pid ∈ Finset.range c.next, (c.eventsOf pid).countP f := by
  have hsum : ∀ (next : ℕ) (hist : List (Entry M ι)), (∀ e ∈ hist, e.pid < next) →
      hist.countP (fun e => f e.event)
        = ∑ pid ∈ Finset.range next, ((hist.filter (·.pid == pid)).map Entry.event).countP f := by
    intro next hist
    induction hist with
    | nil => simp
    | cons e hist ih =>
      intro hlt
      have hmem : e.pid ∈ Finset.range next := Finset.mem_range.2 (hlt e List.mem_cons_self)
      have hone : ∀ pid, (((e :: hist).filter (·.pid == pid)).map Entry.event).countP f
          = (if e.pid = pid then if f e.event then 1 else 0 else 0)
            + ((hist.filter (·.pid == pid)).map Entry.event).countP f := by
        intro pid
        by_cases hpid : e.pid = pid
        · simp only [List.filter_cons, hpid, beq_self_eq_true, if_true, List.map_cons,
            List.countP_cons]
          omega
        · simp [hpid]
      simp only [hone, Finset.sum_add_distrib, Finset.sum_ite_eq, hmem, if_true, List.countP_cons,
        ih fun e' he' => hlt e' (List.mem_cons_of_mem _ he')]
      omega
  exact hsum c.next c.hist hc.unused

theorem Reachable.count_le {k : ℕ} (h : Reachable prog s₀ c)
    (hp : ∀ i, Always (Within k f g) (prog i)) : c.count f ≤ k * c.count g := by
  rw [count_eq_sum h.poolOk, count_eq_sum h.poolOk, Finset.mul_sum]
  exact Finset.sum_le_sum fun pid _ => h.always (mixes_within k f g).nil hp pid

theorem Reachable.count_le_threads (h : Reachable prog s₀ c) (hp : ∀ i, AtMost f n (prog i)) :
    c.count f ≤ n * c.next := by
  rw [count_eq_sum h.poolOk]
  calc ∑ pid ∈ Finset.range c.next, (c.eventsOf pid).countP f
      ≤ ∑ _pid ∈ Finset.range c.next, n :=
        Finset.sum_le_sum fun pid _ => h.always (P := fun tr => tr.countP f ≤ n) (Nat.zero_le _) hp pid
    _ = n * c.next := by
      rw [Finset.sum_const_nat fun _ _ => rfl, Finset.card_range, Nat.mul_comm]

end Interact
