import Teecryptor.Lib.System
import Mathlib.Logic.Hydra
import Mathlib.Algebra.BigOperators.Group.Finset.Basic
import Mathlib.Algebra.Order.Group.Multiset

/-!
# Threads that all come to an end

A program is a tree without infinite branches, so finitely many threads make finitely many moves
together, whichever moves next: a schedule that spawns no more threads comes to a point from which
no thread can move (`Endless.settles`). Where that is depends on the machine: it is the end of
every thread if none can be left waiting there.
-/

namespace Interact

namespace Prog

variable {S : Sig} {α β : Type}

/-- What is left of the second program after one move of it. -/
inductive Next : Prog S α → Prog S α → Prop
  | op (o : S.Op) (k : S.Ans o → Prog S α) (x : S.Ans o) : Next (k x) (.op o k)
  | left (p q : Prog S α) : Next p (.choice p q)
  | right (p q : Prog S α) : Next q (.choice p q)

theorem wellFounded_next : WellFounded (Next : Prog S α → Prog S α → Prop) := by
  refine ⟨fun p => ?_⟩
  induction p with
  | pure a => exact ⟨_, fun q h => by cases h⟩
  | op o k ih =>
    refine ⟨_, fun q h => ?_⟩
    cases h with
    | op _ _ x => exact ih x
  | choice p q ihp ihq =>
    refine ⟨_, fun r h => ?_⟩
    cases h with
    | left => exact ihp
    | right => exact ihq

/-! ## Operations a program never comes to -/

/-- No operation in `bad` is ever performed. -/
inductive Never (bad : S.Op → Prop) : Prog S α → Prop
  | pure (a : α) : Never bad (.pure a)
  | op {o : S.Op} {k : S.Ans o → Prog S α} : ¬ bad o → (∀ x, Never bad (k x)) →
      Never bad (.op o k)
  | choice {p q : Prog S α} : Never bad p → Never bad q → Never bad (.choice p q)

variable {bad : S.Op → Prop}

theorem Never.call {o : S.Op} (h : ¬ bad o) : Never bad (Prog.call o : Prog S (S.Ans o)) :=
  .op h fun x => .pure x

theorem Never.bind {p : Prog S α} {f : α → Prog S β} (hp : Never bad p)
    (hf : ∀ a, Never bad (f a)) : Never bad (p.bind f) := by
  induction hp with
  | pure a => exact hf a
  | op ho _ ih => exact .op ho ih
  | choice _ _ ihp ihq => exact .choice ihp ihq

theorem Never.joinOp {o : S.Op} (ho : ¬ bad o) {rec : S.Ans o → Prog S β → Prog S (α × β)}
    (hrec : ∀ x q, Never bad q → Never bad (rec x q)) {q : Prog S β} (hq : Never bad q) :
    Never bad (Prog.joinOp o rec q) := by
  induction hq with
  | pure b => exact .op ho fun x => hrec x _ (.pure b)
  | op ho' hk ih => exact .choice (.op ho fun x => hrec x _ (.op ho' hk)) (.op ho' ih)
  | choice _ _ ih₁ ih₂ => exact .choice ih₁ ih₂

theorem Never.join {p : Prog S α} (hp : Never bad p) : ∀ {q : Prog S β}, Never bad q →
    Never bad (Prog.join p q) := by
  induction hp with
  | pure a => exact fun hq => hq.bind fun b => .pure _
  | op ho _ ih => exact fun hq => .joinOp ho (fun x q h => ih x h) hq
  | choice _ _ ihp ihq => exact fun hq => .choice (ihp hq) (ihq hq)

theorem Never.steps {p p' : Prog S α} {tr : Trace S} (h : Never bad p) (hs : Steps p tr p') :
    Never bad p' := by
  induction hs with
  | refl => exact h
  | @op o k x tr p' _ ih =>
    cases h with
    | op _ hk => exact ih (hk x)
  | left _ ih =>
    cases h with
    | choice hp _ => exact ih hp
  | right _ ih =>
    cases h with
    | choice _ hq => exact ih hq

theorem Never.exceptBind {ε : Type} {x : ExceptT ε (Prog S) α} {f : α → ExceptT ε (Prog S) β}
    (hx : Never bad x.run) (hf : ∀ a, Never bad (f a).run) : Never bad (x >>= f).run := by
  rw [ExceptT.run_bind]
  refine hx.bind fun r => ?_
  rcases r with e | a
  · exact .pure _
  · exact hf a

theorem Never.lift {ε : Type} {p : Prog S α} (hp : Never bad p) :
    Never bad (ExceptT.lift p : ExceptT ε (Prog S) α).run := by
  rw [ExceptT.run_lift]
  exact hp.bind fun a => .pure _

end Prog

/-! ## Work -/

variable {S : Sig} {M : Machine S} {ι R : Type} {prog : ι → Prog S R} {s₀ : M.State}
  {c c' : Config M ι R} {busy : M.State → ℕ}

/-- A step that finishes something: a thread moves, or the environment is busy with less after
it. -/
inductive Work (busy : M.State → ℕ) : Config M ι R → Config M ι R → Prop
  | perform {c : Config M ι R} {pid : ℕ} {t : Thread S ι R} {o : S.Op}
      {k : S.Ans o → Prog S R} {x : S.Ans o} {s : M.State} (ht : c.threads pid = some t)
      (hr : t.rest = .op o k) (hs : M.perform c.state o x s) :
      Work busy c (c.performed pid t ⟨o, x⟩ (k x) s)
  | left {c : Config M ι R} {pid : ℕ} {t : Thread S ι R} {p q : Prog S R}
      (ht : c.threads pid = some t) (hr : t.rest = .choice p q) :
      Work busy c (c.setRest pid t p)
  | right {c : Config M ι R} {pid : ℕ} {t : Thread S ι R} {p q : Prog S R}
      (ht : c.threads pid = some t) (hr : t.rest = .choice p q) :
      Work busy c (c.setRest pid t q)
  | env {c : Config M ι R} {s : M.State} (hs : M.env c.state s) (hb : busy s < busy c.state) :
      Work busy c { c with state := s }

theorem Work.step (h : Work busy c c') : Step prog c c' := by
  cases h with
  | perform ht hr hs => exact .perform ht hr hs
  | left ht hr => exact .left ht hr
  | right ht hr => exact .right ht hr
  | env hs _ => exact .env hs

theorem Work.next (h : Work busy c c') : c'.next = c.next := by
  cases h with
  | perform | left | right | env => rfl

/-- What a thread, if there is one, has left to do. -/
def restOf : Option (Thread S ι R) → Multiset (Prog S R)
  | some t => {t.rest}
  | none => 0

/-- What is left of the threads. -/
def Config.rests (c : Config M ι R) : Multiset (Prog S R) :=
  ∑ pid ∈ Finset.range c.next, restOf (c.threads pid)

/-- One thread has less to do, and the others as much as before. -/
theorem cutExpand_rests {threads : ℕ → Option (Thread S ι R)} {next pid : ℕ} (hpid : pid < next)
    {t : Thread S ι R} {t' : Option (Thread S ι R)} (ht : threads pid = some t)
    (h : Relation.CutExpand Prog.Next (restOf t') {t.rest}) :
    Relation.CutExpand Prog.Next
      (∑ i ∈ Finset.range next, restOf (Function.update threads pid t' i))
      (∑ i ∈ Finset.range next, restOf (threads i)) := by
  have hmem : pid ∈ Finset.range next := Finset.mem_range.2 hpid
  have hothers : ∑ i ∈ (Finset.range next).erase pid, restOf (Function.update threads pid t' i)
      = ∑ i ∈ (Finset.range next).erase pid, restOf (threads i) :=
    Finset.sum_congr rfl fun i hi => by rw [Function.update_of_ne (Finset.ne_of_mem_erase hi)]
  rw [← Finset.sum_erase_add _ _ hmem, ← Finset.sum_erase_add _ (fun i => restOf (threads i)) hmem,
    hothers, Function.update_self, ht]
  exact (Relation.cutExpand_add_left _).2 h

/-- What is left to do: of the threads, and then of the environment. -/
def Config.left (busy : M.State → ℕ) (c : Config M ι R) : Multiset (Prog S R) × ℕ :=
  (c.rests, busy c.state)

/-- Less is left. -/
abbrev Less : Multiset (Prog S R) × ℕ → Multiset (Prog S R) × ℕ → Prop :=
  Prod.Lex (Relation.CutExpand Prog.Next) (· < ·)

theorem wellFounded_less : WellFounded (Less : Multiset (Prog S R) × ℕ → _ → Prop) :=
  Prog.wellFounded_next.cutExpand.prod_lex wellFounded_lt

theorem PoolOk.lt_next (hc : PoolOk prog c) {pid : ℕ} {t : Thread S ι R}
    (ht : c.threads pid = some t) : pid < c.next := by
  by_contra hge
  rw [hc.fresh pid (by omega)] at ht
  cases ht

theorem Work.less (hc : PoolOk prog c) (h : Work busy c c') : Less (c'.left busy) (c.left busy) := by
  cases h with
  | perform ht hr hs =>
    exact .left _ _ (cutExpand_rests (hc.lt_next ht) ht
      (by rw [hr]; exact Relation.cutExpand_singleton_singleton (.op _ _ _)))
  | left ht hr =>
    exact .left _ _ (cutExpand_rests (hc.lt_next ht) ht
      (by rw [hr]; exact Relation.cutExpand_singleton_singleton (.left _ _)))
  | right ht hr =>
    exact .left _ _ (cutExpand_rests (hc.lt_next ht) ht
      (by rw [hr]; exact Relation.cutExpand_singleton_singleton (.right _ _)))
  | env hs hb => exact .right _ hb

/-- As long as no thread is spawned, no step leaves more to do. -/
theorem Step.less_or_eq (hbusy : ∀ {s s'}, M.env s s' → busy s' ≤ busy s) (hc : PoolOk prog c)
    (h : Step prog c c') (hnext : c'.next = c.next) :
    Less (c'.left busy) (c.left busy) ∨ c'.left busy = c.left busy := by
  cases h with
  | spawn i =>
    simp only [Config.spawn] at hnext
    omega
  | perform ht hr hs => exact .inl ((Work.perform ht hr hs).less hc)
  | left ht hr => exact .inl ((Work.left ht hr).less hc)
  | right ht hr => exact .inl ((Work.right ht hr).less hc)
  | @env s hs =>
    rcases (hbusy hs).lt_or_eq with hlt | heq
    · exact .inl ((Work.env hs hlt).less hc)
    · exact .inr (by simp only [Config.left, Config.rests, heq])
  | @drop pid t ht =>
    exact .inl (.left _ _ (cutExpand_rests (hc.lt_next ht) ht Relation.cutExpand_zero))

/-! ## Endless schedules -/

/-- A schedule without end that does not leave work undone for ever. -/
structure Endless (prog : ι → Prog S R) (busy : M.State → ℕ) (f : ℕ → Config M ι R) : Prop where
  step : ∀ n, Step prog (f n) (f (n + 1))
  fair : ∀ {n c'}, Work busy (f n) c' → ∃ m ≥ n, Work busy (f m) (f (m + 1))

variable {f : ℕ → Config M ι R}

theorem Endless.reachable (hf : Endless prog busy f) (h₀ : Reachable prog s₀ (f 0)) :
    ∀ n, Reachable prog s₀ (f n)
  | 0 => h₀
  | n + 1 => (hf.reachable h₀ n).step (hf.step n)

/-- From where on no thread is spawned, less is left or as much, however far one looks. -/
theorem Endless.left_le (hf : Endless prog busy f)
    (hbusy : ∀ {s s'}, M.env s s' → busy s' ≤ busy s) (h₀ : Reachable prog s₀ (f 0)) {N : ℕ}
    (hN : ∀ n ≥ N, (f (n + 1)).next = (f n).next) {m : ℕ} (hm : N ≤ m) (k : ℕ) :
    Relation.ReflTransGen Less ((f (m + k)).left busy) ((f m).left busy) := by
  induction k with
  | zero => exact .refl
  | succ k ih =>
    rcases (hf.step (m + k)).less_or_eq hbusy (hf.reachable h₀ _).poolOk (hN _ (by omega))
      with hless | heq
    · exact .head hless ih
    · rw [← Nat.add_assoc, heq]
      exact ih

/-- Work comes to an end when no thread is spawned any more: from some point on none is left. -/
theorem Endless.settles (hf : Endless prog busy f)
    (hbusy : ∀ {s s'}, M.env s s' → busy s' ≤ busy s) (h₀ : Reachable prog s₀ (f 0)) {N : ℕ}
    (hN : ∀ n ≥ N, (f (n + 1)).next = (f n).next) :
    ∃ n₀, ∀ n ≥ n₀, ∀ c', ¬ Work busy (f n) c' := by
  by_contra hmore
  have hwork : ∀ n, ∃ m ≥ n, Work busy (f m) (f (m + 1)) := by
    intro n
    simp only [not_exists, not_forall, not_not] at hmore
    obtain ⟨n', hn', c', hc'⟩ := hmore n
    obtain ⟨m, hm, hw⟩ := hf.fair hc'
    exact ⟨m, le_trans hn' hm, hw⟩
  -- the work that leaves least is followed by more work, which leaves less
  obtain ⟨m₀, hm₀, hw₀⟩ := hwork N
  obtain ⟨_, ⟨m, ⟨hm, hw⟩, rfl⟩, hmin⟩ := wellFounded_less.transGen.has_min
    ((fun m => (f (m + 1)).left busy) '' { m | N ≤ m ∧ Work busy (f m) (f (m + 1)) })
    ⟨_, m₀, ⟨hm₀, hw₀⟩, rfl⟩
  obtain ⟨m', hm', hw'⟩ := hwork (m + 1)
  obtain ⟨k, rfl⟩ := Nat.exists_eq_add_of_le hm'
  refine hmin _ ⟨m + 1 + k, ⟨by omega, hw'⟩, rfl⟩ ?_
  exact .head' (hw'.less (hf.reachable h₀ _).poolOk)
    (hf.left_le hbusy h₀ hN (m := m + 1) (by omega) k)

open Classical in
/-- Some work done, where there is any. -/
noncomputable def Config.onward (busy : M.State → ℕ) (c : Config M ι R) : Config M ι R :=
  if h : ∃ c', Work busy c c' then h.choose else c

theorem work_onward (h : Work busy c c') : Work busy c (c.onward busy) := by
  have hex : ∃ c', Work busy c c' := ⟨c', h⟩
  rw [Config.onward, dif_pos hex]
  exact hex.choose_spec

theorem step_onward (prog : ι → Prog S R) (hidle : ∀ s, M.env s s) (c : Config M ι R) :
    Step prog c (c.onward busy) ∧ (c.onward busy).next = c.next := by
  by_cases h : ∃ c', Work busy c c'
  · have hw := work_onward h.choose_spec
    exact ⟨hw.step, hw.next⟩
  · rw [Config.onward, dif_neg h]
    exact ⟨.env (hidle c.state), rfl⟩

/-- There is such a schedule from every configuration, if the environment can idle. -/
theorem exists_endless (prog : ι → Prog S R) (busy : M.State → ℕ) (hidle : ∀ s, M.env s s)
    (c : Config M ι R) :
    ∃ f, f 0 = c ∧ Endless prog busy f ∧ ∀ n, (f (n + 1)).next = (f n).next := by
  have hsucc : ∀ n, (Config.onward busy)^[n + 1] c = ((Config.onward busy)^[n] c).onward busy :=
    fun n => Function.iterate_succ_apply' _ n c
  refine ⟨fun n => (Config.onward busy)^[n] c, rfl, ⟨fun n => ?_, fun {n c'} h => ?_⟩, fun n => ?_⟩
  · simp only [hsucc]
    exact (step_onward prog hidle _).1
  · refine ⟨n, le_rfl, ?_⟩
    simp only [hsucc]
    exact work_onward h
  · simp only [hsucc]
    exact (step_onward prog hidle _).2

end Interact
