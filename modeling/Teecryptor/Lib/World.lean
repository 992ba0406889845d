import Teecryptor.Lib.Prog

/-!
# Runs in one world

Each operation is answered by the service `key` gives it, if it gives it one. A world says what
every service answers, from the operations it has answered before; the operations of no service
are answered anyhow. Two runs of a determined program in one world return the same and go through
the same operations at every service, however the services are interleaved.
-/

namespace Interact

variable {S : Sig} {κ : Type} [DecidableEq κ] (key : S.Op → Option κ)

/-- The events of the service `k`. -/
def eventsAt (k : κ) (tr : Trace S) : Trace S := tr.filter fun e => key e.1 = some k

@[simp] theorem eventsAt_append (k : κ) (tr tr' : Trace S) :
    eventsAt key k (tr ++ tr') = eventsAt key k tr ++ eventsAt key k tr' := List.filter_append _ _

theorem eventsAt_of_ne {k : κ} {tr : Trace S} (h : ∀ e ∈ tr, key e.1 ≠ some k) :
    eventsAt key k tr = [] :=
  List.filter_eq_nil_iff.2 fun e he => by simpa using h e he

/-- What each service answers to an operation after the ones it answered already, if anything. -/
structure World (S : Sig) where
  answer : Trace S → (o : S.Op) → Option (S.Ans o)

/-- After the events of `h`, those of `tr` are answered as in the world `w`. -/
def World.Gives (w : World S) : Trace S → Trace S → Prop
  | _, [] => True
  | h, e :: tr => (∀ k, key e.1 = some k → w.answer (eventsAt key k h) e.1 = some e.2)
      ∧ World.Gives w (h ++ [e]) tr

/-- The two traces are the same at every service. -/
def Alike (tr tr' : Trace S) : Prop := ∀ k, eventsAt key k tr = eventsAt key k tr'

variable {key} {w : World S} {h h' tr tr' : Trace S}

theorem Alike.append {l l' : Trace S} (ht : Alike key tr tr') (hl : Alike key l l') :
    Alike key (tr ++ l) (tr' ++ l') := by
  intro k
  rw [eventsAt_append, eventsAt_append, ht k, hl k]

theorem World.Gives.congr (ha : Alike key h h') (hg : w.Gives key h tr) : w.Gives key h' tr := by
  induction tr generalizing h h' with
  | nil => trivial
  | cons e tr ih =>
    refine ⟨fun k hk => ?_, ih (ha.append fun _ => rfl) hg.2⟩
    rw [← ha k]
    exact hg.1 k hk

theorem World.gives_append :
    w.Gives key h (tr ++ tr') ↔ w.Gives key h tr ∧ w.Gives key (h ++ tr) tr' := by
  induction tr generalizing h with
  | nil => simp [World.Gives]
  | cons e tr ih => simp only [List.cons_append, World.Gives, ih, List.append_assoc, and_assoc,
      List.nil_append]

theorem World.gives_cons {e : Event S} (he : key e.1 = none) :
    w.Gives key h (e :: tr) ↔ w.Gives key h tr := by
  have ha : Alike key (h ++ [e]) h := by
    intro k
    have hn : eventsAt key k [e] = [] := eventsAt_of_ne key (by simp [he])
    rw [eventsAt_append, hn, List.append_nil]
  constructor
  · exact fun hg => hg.2.congr ha
  · refine fun hg => ⟨fun k hk => ?_, hg.congr fun k => (ha k).symm⟩
    rw [he] at hk
    cases hk

/-! ## Interleaved traces -/

/-- One of two interleaved traces that share no service is in the world by itself. -/
theorem World.Gives.left {l₁ l₂ l : Trace S} (hs : Shuffle l₁ l₂ l) {K : κ → Prop}
    (h₁ : ∀ e ∈ l₁, ∀ k, key e.1 = some k → K k) (h₂ : ∀ e ∈ l₂, ∀ k, key e.1 = some k → ¬ K k)
    (hh : ∀ k, K k → eventsAt key k h = eventsAt key k h') (hg : w.Gives key h l) :
    w.Gives key h' l₁ := by
  induction hs generalizing h h' with
  | nil => trivial
  | @left e l₁ l₂ l _ ih =>
    simp only [List.forall_mem_cons] at h₁
    refine ⟨fun k hk => ?_, ih h₁.2 h₂ (fun k hk => ?_) hg.2⟩
    · rw [← hh k (h₁.1 k hk)]
      exact hg.1 k hk
    · rw [eventsAt_append, eventsAt_append, hh k hk]
  | @right e l₁ l₂ l _ ih =>
    simp only [List.forall_mem_cons] at h₂
    refine ih h₁ h₂.2 (fun k hk => ?_) hg.2
    have hne : eventsAt key k [e] = [] := eventsAt_of_ne key (by
      simpa using fun he => h₂.1 k he hk)
    rw [eventsAt_append, hne, List.append_nil, hh k hk]

theorem Shuffle.swap {α : Type*} {l₁ l₂ l : List α} (hs : Shuffle l₁ l₂ l) :
    Shuffle l₂ l₁ l := by
  induction hs with
  | nil => exact .nil
  | left _ ih => exact .right ih
  | right _ ih => exact .left ih

/-- Interleaved traces that share no service are determined, at each service, by their parts. -/
theorem eventsAt_shuffle {l₁ l₂ l : Trace S} (hs : Shuffle l₁ l₂ l) {K : κ → Prop}
    (h₁ : ∀ e ∈ l₁, ∀ k, key e.1 = some k → K k) (h₂ : ∀ e ∈ l₂, ∀ k, key e.1 = some k → ¬ K k)
    (k : κ) : eventsAt key k l = eventsAt key k l₁ ++ eventsAt key k l₂ := by
  have hf : Shuffle (eventsAt key k l₁) (eventsAt key k l₂) (eventsAt key k l) := hs.filter _
  by_cases hk : K k
  · have hn : eventsAt key k l₂ = [] := eventsAt_of_ne key fun e he hk' => h₂ e he k hk' hk
    rw [hn] at hf ⊢
    rw [hf.eq_of_right_nil, List.append_nil]
  · have hn : eventsAt key k l₁ = [] := eventsAt_of_ne key fun e he hk' => hk (h₁ e he k hk')
    rw [hn] at hf ⊢
    rw [hf.eq_of_left_nil, List.nil_append]

/-! ## Programs a world determines -/

namespace Prog

variable (key) {α β : Type}

/-- Two runs of `p` in one world, after traces that are alike, return the same and are alike. -/
def Determined (p : Prog S α) : Prop :=
  ∀ (w : World S) {h h' tr tr' : Trace S} {a b : α}, Alike key h h' → w.Gives key h tr →
    w.Gives key h' tr' → Run p tr a → Run p tr' b → a = b ∧ Alike key tr tr'

variable {key}

theorem Determined.pure (a : α) : Determined key (.pure a : Prog S α) := by
  intro w h h' tr tr' b b' _ _ _ hr hr'
  obtain ⟨rfl, rfl⟩ := run_pure.1 hr
  obtain ⟨rfl, rfl⟩ := run_pure.1 hr'
  exact ⟨rfl, fun _ => rfl⟩

theorem Determined.call {o : S.Op} {k : κ} (ho : key o = some k) :
    Determined key (call o : Prog S (S.Ans o)) := by
  intro w h h' tr tr' x x' ha hg hg' hr hr'
  obtain rfl := run_call.1 hr
  obtain rfl := run_call.1 hr'
  have hx := hg.1 k ho
  have hx' := hg'.1 k ho
  simp only [← ha k] at hx'
  obtain rfl : x = x' := Option.some.inj (hx.symm.trans hx')
  exact ⟨rfl, fun _ => rfl⟩

theorem Determined.bind {p : Prog S α} {f : α → Prog S β} (hp : Determined key p)
    (hf : ∀ a, Determined key (f a)) : Determined key (p.bind f) := by
  intro w h h' tr tr' b b' ha hg hg' hr hr'
  obtain ⟨tr₁, tr₂, a, rfl, h₁, h₂⟩ := run_bind.1 hr
  obtain ⟨tr₁', tr₂', a', rfl, h₁', h₂'⟩ := run_bind.1 hr'
  obtain ⟨hg₁, hg₂⟩ := World.gives_append.1 hg
  obtain ⟨hg₁', hg₂'⟩ := World.gives_append.1 hg'
  obtain ⟨rfl, ht⟩ := hp w ha hg₁ hg₁' h₁ h₁'
  obtain ⟨rfl, ht'⟩ := hf a w (ha.append ht) hg₂ hg₂' h₂ h₂'
  exact ⟨rfl, ht.append ht'⟩

/-- Two determined programs at once, of which the first has the services `K` to itself. -/
theorem Determined.join {p : Prog S α} {q : Prog S β} (K : κ → Prop) (hp : Determined key p)
    (hq : Determined key q) (hpK : Always (Only fun e => ∀ k, key e.1 = some k → K k) p)
    (hqK : Always (Only fun e => ∀ k, key e.1 = some k → ¬ K k) q) :
    Determined key (join p q) := by
  rintro w h h' tr tr' ⟨a, b⟩ ⟨a', b'⟩ ha hg hg' hr hr'
  obtain ⟨tr₁, tr₂, hs, h₁, h₂⟩ := (run_join p q tr a b).1 hr
  obtain ⟨tr₁', tr₂', hs', h₁', h₂'⟩ := (run_join p q tr' a' b').1 hr'
  have hk₁ := hpK.run h₁
  have hk₂ := hqK.run h₂
  have hk₁' := hpK.run h₁'
  have hk₂' := hqK.run h₂'
  have hnot : ∀ {l : Trace S}, (∀ e ∈ l, ∀ k, key e.1 = some k → K k) →
      ∀ e ∈ l, ∀ k, key e.1 = some k → ¬ ¬ K k := fun hl e he k hk hn => hn (hl e he k hk)
  obtain ⟨rfl, ht⟩ := hp w ha (hg.left hs hk₁ hk₂ fun _ _ => rfl)
    (hg'.left hs' hk₁' hk₂' fun _ _ => rfl) h₁ h₁'
  obtain ⟨rfl, ht'⟩ := hq w ha (hg.left hs.swap hk₂ (hnot hk₁) fun _ _ => rfl)
    (hg'.left hs'.swap hk₂' (hnot hk₁') fun _ _ => rfl) h₂ h₂'
  refine ⟨rfl, fun k => ?_⟩
  rw [eventsAt_shuffle hs hk₁ hk₂, eventsAt_shuffle hs' hk₁' hk₂', ht k, ht' k]

/-- A program without a choice, all of whose operations are of some service. -/
theorem Linear.determined {p : Prog S α} (hp : Linear p)
    (hk : Always (Only fun e => ∃ k, key e.1 = some k) p) : Determined key p := by
  induction hp with
  | pure a => exact .pure a
  | @op o c _ ih =>
    intro w h h' tr tr' a b ha hg hg' hr hr'
    obtain ⟨x, tr₁, rfl, h₁⟩ := run_op.1 hr
    obtain ⟨x', tr₁', rfl, h₁'⟩ := run_op.1 hr'
    obtain ⟨k, ho⟩ := hk _ _ hr ⟨o, x⟩ (by simp)
    have hx := hg.1 k ho
    have hx' := hg'.1 k ho
    simp only [← ha k] at hx'
    obtain rfl : x = x' := Option.some.inj (hx.symm.trans hx')
    have hrest : Always (Only fun e => ∃ k, key e.1 = some k) (c x) := fun l p' hs e he =>
      hk _ _ (.op hs) e (List.mem_cons_of_mem _ he)
    obtain ⟨rfl, ht⟩ := ih x hrest w (ha.append fun _ => rfl) hg.2 hg'.2 h₁ h₁'
    have hcons : Alike key [(⟨o, x⟩ : Event S)] [⟨o, x⟩] := fun _ => rfl
    exact ⟨rfl, hcons.append ht⟩

end Prog

end Interact
