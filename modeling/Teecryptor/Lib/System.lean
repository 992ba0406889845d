import Teecryptor.Lib.Prog
import Mathlib.Logic.Function.Basic
import Mathlib.Logic.Relation

/-!
# Threads over a shared state

A machine says what each operation does to a shared state. A configuration holds threads that each
run a program, and one step spawns a thread, performs one operation of one thread, lets the
environment move, or drops a thread where it stands. The history keeps every operation performed,
with the state before and after it, so a reachable configuration carries the run that led to it.

A thread's trace is always a partial run of its program (`Reachable.thread`), so what holds of
every partial run of the programs holds of every thread's events in every interleaving
(`Reachable.always`).
-/

namespace Interact

/-- A shared state: what performing an operation does to it, how it moves by itself, and what it
becomes when a thread with the given trace is dropped. -/
structure Machine (S : Sig) where
  State : Type
  perform : State → (o : S.Op) → S.Ans o → State → Prop
  env : State → State → Prop
  release : State → Trace S → State

structure Thread (S : Sig) (ι R : Type) where
  job : ι
  trace : Trace S
  rest : Prog S R

/-- An operation a thread performed, with the shared state before and after it. -/
structure Entry {S : Sig} (M : Machine S) (ι : Type) where
  pid : ℕ
  job : ι
  event : Event S
  pre : M.State
  post : M.State

structure Config {S : Sig} (M : Machine S) (ι R : Type) where
  state : M.State
  threads : ℕ → Option (Thread S ι R)
  next : ℕ
  hist : List (Entry M ι)

variable {S : Sig} {M : Machine S} {ι R : Type}

namespace Config

/-- The events of the thread `pid`, in order. -/
def eventsOf (c : Config M ι R) (pid : ℕ) : Trace S :=
  (c.hist.filter (·.pid == pid)).map Entry.event

def start (s : M.State) : Config M ι R := ⟨s, fun _ => none, 0, []⟩

def spawn (c : Config M ι R) (t : Thread S ι R) : Config M ι R :=
  { c with threads := Function.update c.threads c.next (some t), next := c.next + 1 }

/-- The thread `pid`, at `t` before, performs the event `e` and continues as `p`. -/
def performed (c : Config M ι R) (pid : ℕ) (t : Thread S ι R) (e : Event S) (p : Prog S R)
    (s : M.State) : Config M ι R :=
  { c with
    state := s
    threads := Function.update c.threads pid (some { t with trace := t.trace ++ [e], rest := p })
    hist := c.hist ++ [⟨pid, t.job, e, c.state, s⟩] }

def setRest (c : Config M ι R) (pid : ℕ) (t : Thread S ι R) (p : Prog S R) : Config M ι R :=
  { c with threads := Function.update c.threads pid (some { t with rest := p }) }

def drop (c : Config M ι R) (pid : ℕ) (t : Thread S ι R) : Config M ι R :=
  { c with
    state := M.release c.state t.trace
    threads := Function.update c.threads pid none }

end Config

/-- One step of the threads, each running the program `prog` gives its job. -/
inductive Step (prog : ι → Prog S R) : Config M ι R → Config M ι R → Prop
  | spawn (c : Config M ι R) (i : ι) : Step prog c (c.spawn ⟨i, [], prog i⟩)
  | perform {c : Config M ι R} {pid : ℕ} {t : Thread S ι R} {o : S.Op}
      {k : S.Ans o → Prog S R} {x : S.Ans o} {s : M.State} (ht : c.threads pid = some t)
      (hr : t.rest = .op o k) (hs : M.perform c.state o x s) :
      Step prog c (c.performed pid t ⟨o, x⟩ (k x) s)
  | left {c : Config M ι R} {pid : ℕ} {t : Thread S ι R} {p q : Prog S R}
      (ht : c.threads pid = some t) (hr : t.rest = .choice p q) :
      Step prog c (c.setRest pid t p)
  | right {c : Config M ι R} {pid : ℕ} {t : Thread S ι R} {p q : Prog S R}
      (ht : c.threads pid = some t) (hr : t.rest = .choice p q) :
      Step prog c (c.setRest pid t q)
  | env {c : Config M ι R} {s : M.State} (hs : M.env c.state s) : Step prog c { c with state := s }
  | drop {c : Config M ι R} {pid : ℕ} {t : Thread S ι R} (ht : c.threads pid = some t) :
      Step prog c (c.drop pid t)

/-- `c` comes from the shared state `s₀`, with no thread yet, by some steps. -/
inductive Reachable (prog : ι → Prog S R) (s₀ : M.State) : Config M ι R → Prop
  | start : Reachable prog s₀ (.start s₀)
  | step {c c' : Config M ι R} : Reachable prog s₀ c → Step prog c c' → Reachable prog s₀ c'

variable {prog : ι → Prog S R} {s₀ : M.State} {c c' : Config M ι R}

@[simp] theorem eventsOf_performed (c : Config M ι R) (pid pid' : ℕ) (t : Thread S ι R)
    (e : Event S) (p : Prog S R) (s : M.State) :
    (c.performed pid t e p s).eventsOf pid'
      = c.eventsOf pid' ++ if pid = pid' then [e] else [] := by
  by_cases h : pid = pid' <;> simp [Config.eventsOf, Config.performed, h]

/-- What the configuration says of the thread `pid`: its trace is its part of the history, and a
partial run of its program. -/
structure ThreadOk (prog : ι → Prog S R) (c : Config M ι R) (pid : ℕ) (t : Thread S ι R) :
    Prop where
  trace : t.trace = c.eventsOf pid
  steps : Prog.Steps (prog t.job) t.trace t.rest
  job : ∀ e ∈ c.hist, e.pid = pid → e.job = t.job

/-- The pool's bookkeeping: an identifier not given out yet has no thread and no history. -/
structure PoolOk (prog : ι → Prog S R) (c : Config M ι R) : Prop where
  thread : ∀ pid t, c.threads pid = some t → ThreadOk prog c pid t
  fresh : ∀ pid, c.next ≤ pid → c.threads pid = none
  unused : ∀ e ∈ c.hist, e.pid < c.next
  past : ∀ pid, (∃ i p', Prog.Steps (prog i) (c.eventsOf pid) p'
    ∧ ∀ e ∈ c.hist, e.pid = pid → e.job = i) ∨ c.eventsOf pid = []

theorem PoolOk.eventsOf_fresh (h : PoolOk prog c) : c.eventsOf c.next = [] := by
  simp only [Config.eventsOf, List.map_eq_nil_iff, List.filter_eq_nil_iff, beq_iff_eq]
  intro e he hp
  exact absurd (h.unused e he) (by omega)

theorem poolOk_setRest (h : PoolOk prog c) {pid : ℕ} {t : Thread S ι R} {p : Prog S R}
    (ht : c.threads pid = some t) (hp : Prog.Steps (prog t.job) t.trace p) :
    PoolOk prog (c.setRest pid t p) where
  thread := by
    intro pid' t' ht'
    by_cases hpid : pid' = pid
    · subst hpid
      simp only [Config.setRest, Function.update_self, Option.some.injEq] at ht'
      subst ht'
      exact ⟨(h.thread pid' t ht).trace, hp, (h.thread pid' t ht).job⟩
    · simp only [Config.setRest, Function.update_of_ne hpid] at ht'
      exact ⟨(h.thread pid' t' ht').trace, (h.thread pid' t' ht').steps,
        (h.thread pid' t' ht').job⟩
  fresh := by
    intro pid' hn
    have hne : pid' ≠ pid := by
      rintro rfl
      rw [h.fresh pid' hn] at ht
      simp at ht
    simp only [Config.setRest, Function.update_of_ne hne]
    exact h.fresh pid' hn
  unused := h.unused
  past := h.past

theorem poolOk_performed (h : PoolOk prog c) {pid : ℕ} {t : Thread S ι R} {o : S.Op}
    {k : S.Ans o → Prog S R} (ht : c.threads pid = some t) (hr : t.rest = .op o k)
    (x : S.Ans o) (s : M.State) : PoolOk prog (c.performed pid t ⟨o, x⟩ (k x) s) := by
  have hok := h.thread pid t ht
  have hsteps : Prog.Steps (prog t.job) (t.trace ++ [⟨o, x⟩]) (k x) :=
    Prog.Steps.snoc (hr ▸ hok.steps) x
  have hjob : ∀ e ∈ (c.performed pid t ⟨o, x⟩ (k x) s).hist, e.pid = pid → e.job = t.job := by
    intro e he hp
    simp only [Config.performed, List.mem_append, List.mem_singleton] at he
    rcases he with he | rfl
    · exact hok.job e he hp
    · rfl
  have hlt : pid < c.next := by
    by_contra hge
    rw [h.fresh pid (by omega)] at ht
    simp at ht
  constructor
  · intro pid' t' ht'
    by_cases hpid : pid' = pid
    · subst hpid
      simp only [Config.performed, Function.update_self, Option.some.injEq] at ht'
      subst ht'
      exact ⟨by simp [hok.trace], hsteps, hjob⟩
    · simp only [Config.performed, Function.update_of_ne hpid] at ht'
      have hok' := h.thread pid' t' ht'
      refine ⟨by simp [hok'.trace, Ne.symm hpid], hok'.steps, ?_⟩
      intro e he hp
      simp only [Config.performed, List.mem_append, List.mem_singleton] at he
      rcases he with he | rfl
      · exact hok'.job e he hp
      · exact absurd hp (Ne.symm hpid)
  · intro pid' hn
    have hn' : c.next ≤ pid' := hn
    simp only [Config.performed]
    rw [Function.update_of_ne (by omega)]
    exact h.fresh pid' hn'
  · intro e he
    simp only [Config.performed, List.mem_append, List.mem_singleton] at he ⊢
    rcases he with he | rfl
    · exact h.unused e he
    · exact hlt
  · intro pid'
    by_cases hpid : pid = pid'
    · subst hpid
      refine .inl ⟨t.job, k x, ?_, hjob⟩
      simpa [← hok.trace] using hsteps
    · simp only [eventsOf_performed, if_neg hpid, List.append_nil]
      rcases h.past pid' with ⟨i, p', hp', hj⟩ | hnil
      · refine .inl ⟨i, p', hp', ?_⟩
        intro e he hp
        simp only [Config.performed, List.mem_append, List.mem_singleton] at he
        rcases he with he | rfl
        · exact hj e he hp
        · exact absurd hp hpid
      · exact .inr hnil

theorem poolOk_spawn (h : PoolOk prog c) (i : ι) : PoolOk prog (c.spawn ⟨i, [], prog i⟩) where
  thread := by
    intro pid t ht
    by_cases hpid : pid = c.next
    · subst hpid
      simp only [Config.spawn, Function.update_self, Option.some.injEq] at ht
      subst ht
      refine ⟨h.eventsOf_fresh.symm, .refl _, fun e he hp => ?_⟩
      exact absurd (h.unused e he) (by omega)
    · simp only [Config.spawn, Function.update_of_ne hpid] at ht
      exact ⟨(h.thread pid t ht).trace, (h.thread pid t ht).steps, (h.thread pid t ht).job⟩
  fresh := by
    intro pid hn
    simp only [Config.spawn] at hn ⊢
    rw [Function.update_of_ne (by omega)]
    exact h.fresh pid (by omega)
  unused := fun e he => Nat.lt_succ_of_lt (h.unused e he)
  past := h.past

theorem poolOk_drop (h : PoolOk prog c) (pid : ℕ) (t : Thread S ι R) :
    PoolOk prog (c.drop pid t) where
  thread := by
    intro pid' t' ht'
    by_cases hpid : pid' = pid
    · subst hpid
      simp [Config.drop] at ht'
    · simp only [Config.drop, Function.update_of_ne hpid] at ht'
      exact ⟨(h.thread pid' t' ht').trace, (h.thread pid' t' ht').steps,
        (h.thread pid' t' ht').job⟩
  fresh := by
    intro pid' hn
    by_cases hpid : pid' = pid
    · subst hpid
      simp [Config.drop]
    · simp only [Config.drop, Function.update_of_ne hpid]
      exact h.fresh pid' hn
  unused := h.unused
  past := h.past

theorem step_poolOk (h : PoolOk prog c) (hs : Step prog c c') : PoolOk prog c' := by
  cases hs with
  | spawn i => exact poolOk_spawn h i
  | perform ht hr hs => exact poolOk_performed h ht hr _ _
  | left ht hr =>
    have hsteps := (h.thread _ _ ht).steps
    rw [hr] at hsteps
    exact poolOk_setRest h ht (by simpa using hsteps.trans (.left (.refl _)))
  | right ht hr =>
    have hsteps := (h.thread _ _ ht).steps
    rw [hr] at hsteps
    exact poolOk_setRest h ht (by simpa using hsteps.trans (.right (.refl _)))
  | env hs => exact ⟨fun pid t ht => ⟨(h.thread pid t ht).trace, (h.thread pid t ht).steps,
      (h.thread pid t ht).job⟩, h.fresh, h.unused, h.past⟩
  | drop ht => exact poolOk_drop h _ _

/-- What a step can do to a thread that is about to perform `o`: nothing, drop it, or let it
perform `o`. -/
theorem Step.at_op (h : Step prog c c') (hc : PoolOk prog c) {pid : ℕ} {t : Thread S ι R}
    (ht : c.threads pid = some t) {o : S.Op} {k : S.Ans o → Prog S R} (hr : t.rest = .op o k) :
    c'.threads pid = some t ∨ c'.threads pid = none ∨ ∃ x, M.perform c.state o x c'.state
      ∧ c'.threads pid = some ⟨t.job, t.trace ++ [⟨o, x⟩], k x⟩ := by
  cases h with
  | spawn i =>
    have hne : pid ≠ c.next := by
      rintro rfl
      rw [hc.fresh _ (Nat.le_refl _)] at ht
      cases ht
    exact .inl (by simpa [Config.spawn, Function.update_of_ne hne] using ht)
  | @perform pid' t' o' k' x s ht' hr' hs =>
    by_cases hpid : pid = pid'
    · subst hpid
      obtain rfl : t' = t := Option.some.inj (ht'.symm.trans ht)
      rw [hr] at hr'
      cases hr'
      exact .inr (.inr ⟨x, hs, by simp [Config.performed]⟩)
    · exact .inl (by simpa [Config.performed, Function.update_of_ne hpid] using ht)
  | @left pid' t' p q ht' hr' =>
    have hne : pid ≠ pid' := by
      rintro rfl
      obtain rfl : t' = t := Option.some.inj (ht'.symm.trans ht)
      rw [hr] at hr'
      cases hr'
    exact .inl (by simpa [Config.setRest, Function.update_of_ne hne] using ht)
  | @right pid' t' p q ht' hr' =>
    have hne : pid ≠ pid' := by
      rintro rfl
      obtain rfl : t' = t := Option.some.inj (ht'.symm.trans ht)
      rw [hr] at hr'
      cases hr'
    exact .inl (by simpa [Config.setRest, Function.update_of_ne hne] using ht)
  | env hs => exact .inl ht
  | @drop pid' t' ht' =>
    by_cases hpid : pid = pid'
    · subst hpid
      exact .inr (.inl (by simp [Config.drop]))
    · exact .inl (by simpa [Config.drop, Function.update_of_ne hpid] using ht)

theorem Reachable.poolOk (h : Reachable prog s₀ c) : PoolOk prog c := by
  induction h with
  | start => exact ⟨by simp [Config.start], fun _ _ => rfl, by simp [Config.start],
      fun _ => .inr rfl⟩
  | step _ hs ih => exact step_poolOk ih hs

theorem Reachable.thread (h : Reachable prog s₀ c) {pid : ℕ} {t : Thread S ι R}
    (ht : c.threads pid = some t) : Prog.Steps (prog t.job) t.trace t.rest :=
  (h.poolOk.thread pid t ht).steps

/-- A thread that returned went through a run of its program. -/
theorem Reachable.run (h : Reachable prog s₀ c) {pid : ℕ} {t : Thread S ι R} {r : R}
    (ht : c.threads pid = some t) (hr : t.rest = .pure r) : Prog.Run (prog t.job) t.trace r := by
  have := h.thread ht
  rwa [hr] at this

/-- What every partial run of every program keeps, every thread's events keep. -/
theorem Reachable.always {P : Trace S → Prop} (h : Reachable prog s₀ c) (hnil : P [])
    (hP : ∀ i, Prog.Always P (prog i)) (pid : ℕ) : P (c.eventsOf pid) := by
  rcases h.poolOk.past pid with ⟨i, p', hp', -⟩ | hn
  · exact hP i _ _ hp'
  · rw [hn]
    exact hnil

theorem mem_eventsOf {pid : ℕ} {ev : Event S} :
    ev ∈ c.eventsOf pid ↔ ∃ e ∈ c.hist, e.pid = pid ∧ e.event = ev := by
  simp only [Config.eventsOf, List.mem_map, List.mem_filter, beq_iff_eq, and_assoc]

/-- The events of a thread are its entries in the history. -/
theorem Reachable.mem_trace (h : Reachable prog s₀ c) {pid : ℕ} {t : Thread S ι R}
    (ht : c.threads pid = some t) {ev : Event S} :
    ev ∈ t.trace ↔ ∃ e ∈ c.hist, e.pid = pid ∧ e.event = ev := by
  rw [(h.poolOk.thread pid t ht).trace, mem_eventsOf]

/-- What every event in a partial run of a job's program has, every entry of the history has. -/
theorem Reachable.entry_always {Q : ι → Event S → Prop} (h : Reachable prog s₀ c)
    (hQ : ∀ i, Prog.Always (Prog.Only (Q i)) (prog i)) : ∀ e ∈ c.hist, Q e.job e.event := by
  intro e he
  have hmem : e.event ∈ c.eventsOf e.pid := mem_eventsOf.2 ⟨e, he, rfl, rfl⟩
  rcases h.poolOk.past e.pid with ⟨i, p', hp', hj⟩ | hn
  · rw [hj e he rfl]
    exact hQ i _ _ hp' _ hmem
  · rw [hn] at hmem
    simp at hmem

/-- The thread an entry is of went part of the way through its job's program. -/
theorem Reachable.steps_of_mem (h : Reachable prog s₀ c) {e : Entry M ι} (he : e ∈ c.hist) :
    ∃ p', Prog.Steps (prog e.job) (c.eventsOf e.pid) p' := by
  rcases h.poolOk.past e.pid with ⟨i, p', hs, hj⟩ | hn
  · exact ⟨p', hj e he rfl ▸ hs⟩
  · have hmem : e.event ∈ c.eventsOf e.pid := mem_eventsOf.2 ⟨e, he, rfl, rfl⟩
    rw [hn] at hmem
    simp at hmem

/-- The events of one thread are all of one job. -/
theorem Reachable.job_eq (h : Reachable prog s₀ c) {e e' : Entry M ι} (he : e ∈ c.hist)
    (he' : e' ∈ c.hist) (hp : e'.pid = e.pid) : e'.job = e.job := by
  rcases h.poolOk.past e.pid with ⟨i, p', -, hj⟩ | hn
  · rw [hj e he rfl, hj e' he' hp]
  · have hmem : e.event ∈ c.eventsOf e.pid := mem_eventsOf.2 ⟨e, he, rfl, rfl⟩
    rw [hn] at hmem
    simp at hmem

/-- Every entry of the history is a move of the machine. -/
theorem Reachable.performs (h : Reachable prog s₀ c) :
    ∀ e ∈ c.hist, M.perform e.pre e.event.1 e.event.2 e.post := by
  induction h with
  | start => simp [Config.start]
  | step _ hs ih =>
    cases hs with
    | spawn i => exact ih
    | perform ht hr hs =>
      intro e he
      simp only [Config.performed, List.mem_append, List.mem_singleton] at he
      rcases he with he | rfl
      · exact ih e he
      · exact hs
    | left => exact ih
    | right => exact ih
    | env => exact ih
    | drop => exact ih

/-- An event of a thread is a move of the machine. -/
theorem Reachable.performs_trace (h : Reachable prog s₀ c) {pid : ℕ} {t : Thread S ι R}
    (ht : c.threads pid = some t) {ev : Event S} (hev : ev ∈ t.trace) :
    ∃ e ∈ c.hist, e.pid = pid ∧ e.event = ev ∧ M.perform e.pre ev.1 ev.2 e.post := by
  obtain ⟨e, he, hpid, rfl⟩ := (h.mem_trace ht).1 hev
  exact ⟨e, he, hpid, rfl, h.performs e he⟩

/-- What holds of the shared state and the history at the start, and is kept by every operation, by
the environment and when a thread is dropped, holds in every reachable configuration. -/
theorem Reachable.invariant {I : M.State → List (Entry M ι) → Prop} (h : Reachable prog s₀ c)
    (hstart : I s₀ [])
    (hperform : ∀ (hist : List (Entry M ι)) (e : Entry M ι), I e.pre hist →
      M.perform e.pre e.event.1 e.event.2 e.post → I e.post (hist ++ [e]))
    (henv : ∀ s s' hist, I s hist → M.env s s' → I s' hist)
    (hrelease : ∀ s hist tr, I s hist → I (M.release s tr) hist) : I c.state c.hist := by
  induction h with
  | start => exact hstart
  | @step c c' _ hs ih =>
    cases hs with
    | spawn i => exact ih
    | @perform pid t o k x s ht hr hs => exact hperform c.hist ⟨pid, t.job, ⟨o, x⟩, c.state, s⟩ ih hs
    | left => exact ih
    | right => exact ih
    | env hs => exact henv _ _ _ ih hs
    | drop => exact hrelease _ _ _ ih

/-- The configuration just before an entry of the history, where the entry's thread stood at its
operation. -/
theorem Reachable.before (h : Reachable prog s₀ c) {h₁ h₂ : List (Entry M ι)} {e : Entry M ι}
    (hs : c.hist = h₁ ++ e :: h₂) :
    ∃ c₁, Reachable prog s₀ c₁ ∧ c₁.hist = h₁ ∧ c₁.state = e.pre
      ∧ ∃ t, c₁.threads e.pid = some t ∧ t.job = e.job := by
  induction h generalizing h₂ with
  | start => simp [Config.start] at hs
  | @step c c' hc hst ih =>
    cases hst with
    | spawn i => exact ih hs
    | @perform pid t o k x s ht hr hp =>
      simp only [Config.performed] at hs
      rcases List.append_eq_append_iff.1 hs with ⟨l, hl, hl'⟩ | ⟨l, hl, hl'⟩
      · rcases l with _ | ⟨e', l⟩
        · simp only [List.nil_append, List.cons.injEq] at hl'
          obtain ⟨rfl, -⟩ := hl'
          exact ⟨c, hc, by simpa using hl.symm, rfl, t, ht, rfl⟩
        · simp at hl'
      · rcases l with _ | ⟨e', l⟩
        · simp only [List.nil_append, List.cons.injEq] at hl'
          obtain ⟨rfl, -⟩ := hl'
          exact ⟨c, hc, by simpa using hl, rfl, t, ht, rfl⟩
        · simp only [List.cons_append, List.cons.injEq] at hl'
          obtain ⟨rfl, rfl⟩ := hl'
          exact ih hl
    | left => exact ih hs
    | right => exact ih hs
    | env => exact ih hs
    | drop => exact ih hs

theorem Reachable.before_at (h : Reachable prog s₀ c) {i : ℕ} {e : Entry M ι}
    (hi : c.hist[i]? = some e) :
    ∃ c₁, Reachable prog s₀ c₁ ∧ c₁.hist = c.hist.take i ∧ c₁.state = e.pre := by
  obtain ⟨hlt, he⟩ := List.getElem?_eq_some_iff.1 hi
  have hsplit : c.hist = c.hist.take i ++ e :: c.hist.drop (i + 1) := by
    rw [← he, ← List.drop_eq_getElem_cons hlt, List.take_append_drop]
  obtain ⟨c₁, hc₁, hh, hs, -⟩ := h.before hsplit
  exact ⟨c₁, hc₁, hh, hs⟩

/-- A thread's events come in the history in its own order. -/
theorem eventsOf_eq_cons {pid : ℕ} {ev : Event S} {tr : Trace S} (h : c.eventsOf pid = ev :: tr) :
    ∃ (i : ℕ) (e : Entry M ι), c.hist[i]? = some e ∧ e.pid = pid ∧ e.event = ev
      ∧ ∀ ev' ∈ tr, ∃ (j : ℕ) (e' : Entry M ι), i < j ∧ c.hist[j]? = some e' ∧ e'.pid = pid
        ∧ e'.event = ev' := by
  obtain ⟨e, l, hf, rfl, rfl⟩ := List.map_eq_cons_iff.1 h
  obtain ⟨h₁, h₂, hsplit, -, hp, hl⟩ := List.filter_eq_cons_iff.1 hf
  refine ⟨h₁.length, e, by rw [hsplit]; simp, by simpa using hp, rfl, fun ev' hev' => ?_⟩
  obtain ⟨e', he', rfl⟩ := List.mem_map.1 hev'
  rw [← hl, List.mem_filter] at he'
  obtain ⟨j, hj⟩ := List.mem_iff_getElem?.1 he'.1
  refine ⟨h₁.length + (j + 1), e', by omega, ?_, by simpa using he'.2, rfl⟩
  rw [hsplit, List.getElem?_append_right (by omega), Nat.add_sub_cancel_left,
    List.getElem?_cons_succ, hj]

/-! ## One thread alone -/

/-- The events of `tr`, one after the other and with moves of the environment between them, can
take the shared state from `s` to `s'`. -/
inductive Machine.Performs (M : Machine S) : M.State → Trace S → M.State → Prop
  | nil {s s' : M.State} (he : Relation.ReflTransGen M.env s s') : Performs M s [] s'
  | cons {s s₁ s₂ s' : M.State} {e : Event S} {tr : Trace S}
      (he : Relation.ReflTransGen M.env s s₁) (h : M.perform s₁ e.1 e.2 s₂)
      (ht : Performs M s₂ tr s') : Performs M s (e :: tr) s'

theorem Machine.Performs.step {s s₁ s' : M.State} {e : Event S} {tr : Trace S}
    (h : M.perform s e.1 e.2 s₁) (ht : M.Performs s₁ tr s') : M.Performs s (e :: tr) s' :=
  .cons .refl h ht

theorem reachable_env (hc : Reachable prog s₀ c) {s : M.State}
    (he : Relation.ReflTransGen M.env c.state s) : Reachable prog s₀ { c with state := s } := by
  induction he with
  | refl => exact hc
  | tail _ h ih => exact ih.step (.env h)

/-- What is left of a thread's program runs on by itself: the entries it adds are its own, and the
other threads stay where they are. -/
theorem reachable_steps {pid : ℕ} {t : Thread S ι R} {tr : Trace S} {p' : Prog S R} {s' : M.State}
    (hc : Reachable prog s₀ c) (ht : c.threads pid = some t) (hp : Prog.Steps t.rest tr p')
    (hm : M.Performs c.state tr s') :
    ∃ c' hist, Reachable prog s₀ c' ∧ c'.state = s' ∧ c'.next = c.next
      ∧ c'.hist = c.hist ++ hist ∧ hist.map Entry.event = tr
      ∧ (∀ e ∈ hist, e.pid = pid ∧ e.job = t.job)
      ∧ c'.threads
        = Function.update c.threads pid (some { t with trace := t.trace ++ tr, rest := p' }) := by
  obtain ⟨job, tr₀, p⟩ := t
  simp only at hp ⊢
  induction hp generalizing c tr₀ with
  | refl p =>
    cases hm with
    | nil he =>
      refine ⟨_, [], reachable_env hc he, rfl, rfl, (List.append_nil _).symm, rfl, by simp, ?_⟩
      rw [List.append_nil, ← ht, Function.update_eq_self]
  | @op o k x tr p' hp ih =>
    cases hm with
    | cons he h hm =>
      obtain ⟨c', hist, hc', hs', hn', hh', hev, hown, ht'⟩ :=
        ih ((reachable_env hc he).step (.perform ht rfl h)) hm (tr₀ ++ [⟨o, x⟩])
          (by simp [Config.performed])
      refine ⟨c', _ :: hist, hc', hs', hn', hh'.trans (List.append_assoc _ _ _), ?_, ?_, ?_⟩
      · rw [List.map_cons, hev]
      · intro e he
        rcases List.mem_cons.1 he with rfl | he
        · exact ⟨rfl, rfl⟩
        · exact hown e he
      · rw [ht', Config.performed, Function.update_idem, List.append_assoc]
        rfl
  | left hp ih =>
    obtain ⟨c', hist, hc', hs', hn', hh', hev, hown, ht'⟩ :=
      ih (hc.step (.left ht rfl)) hm tr₀ (by simp [Config.setRest])
    refine ⟨c', hist, hc', hs', hn', hh', hev, hown, ?_⟩
    rw [ht', Config.setRest, Function.update_idem]
  | right hp ih =>
    obtain ⟨c', hist, hc', hs', hn', hh', hev, hown, ht'⟩ :=
      ih (hc.step (.right ht rfl)) hm tr₀ (by simp [Config.setRest])
    refine ⟨c', hist, hc', hs', hn', hh', hev, hown, ?_⟩
    rw [ht', Config.setRest, Function.update_idem]

/-- A new thread runs by itself, after what there is. -/
theorem reachable_next {i : ι} {tr : Trace S} {p' : Prog S R} {s' : M.State}
    (hc : Reachable prog s₀ c) (hp : Prog.Steps (prog i) tr p') (hm : M.Performs c.state tr s') :
    ∃ c' hist, Reachable prog s₀ c' ∧ c'.state = s' ∧ c'.next = c.next + 1
      ∧ c'.hist = c.hist ++ hist ∧ hist.map Entry.event = tr
      ∧ (∀ e ∈ hist, e.pid = c.next ∧ e.job = i) ∧ c'.threads c.next = some ⟨i, tr, p'⟩
      ∧ ∀ pid ≠ c.next, c'.threads pid = c.threads pid := by
  obtain ⟨c', hist, hc', hs', hn', hh', hev, hown, ht'⟩ := reachable_steps
    (hc.step (.spawn c i)) (t := ⟨i, [], prog i⟩) (Function.update_self ..) hp hm
  rw [Config.spawn, Function.update_idem, List.nil_append] at ht'
  refine ⟨c', hist, hc', hs', hn', hh', hev, hown, ?_, fun pid hpid => ?_⟩
  · rw [ht', Function.update_self]
  · rw [ht', Function.update_of_ne hpid]

/-- A partial run of a program over the machine's moves is one thread's way to that point. -/
theorem reachable_run {i : ι} {tr : Trace S} {p' : Prog S R} {s : M.State}
    (hr : Prog.Steps (prog i) tr p') (hm : M.Performs s₀ tr s) :
    ∃ c : Config M ι R, Reachable prog s₀ c ∧ c.state = s ∧ c.hist.map Entry.event = tr
      ∧ c.threads 0 = some ⟨i, tr, p'⟩ := by
  obtain ⟨c, hist, hc, hs, -, hh, hev, -, ht, -⟩ := reachable_next Reachable.start hr hm
  refine ⟨c, hc, hs, ?_, ht⟩
  rw [hh, ← hev]
  rfl

end Interact
