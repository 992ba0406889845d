import Mathlib.Data.List.Basic
import Mathlib.Data.List.Perm.Basic

/-!
# Programs over a signature of operations

A program returns, performs an operation and continues with the answer, or leaves a choice to the
scheduler. Its runs are the traces of operations and answers it can go through, with every answer
left to the environment, so a statement about every run holds for every environment.

`join` runs two programs at once, one operation of either at a time. Its runs are the
interleavings of theirs (`run_join`).
-/

namespace Interact

/-- The operations a program can perform, and what each can be answered. -/
structure Sig where
  Op : Type
  Ans : Op → Type

/-- An operation with the answer it got. -/
abbrev Event (S : Sig) := (o : S.Op) × S.Ans o

abbrev Trace (S : Sig) := List (Event S)

inductive Prog (S : Sig) (α : Type) : Type
  | pure (a : α) : Prog S α
  | op (o : S.Op) (k : S.Ans o → Prog S α) : Prog S α
  | choice (p q : Prog S α) : Prog S α

namespace Prog

variable {S : Sig} {α β γ : Type}

def bind : Prog S α → (α → Prog S β) → Prog S β
  | .pure a, f => f a
  | .op o k, f => .op o fun x => (k x).bind f
  | .choice p q, f => .choice (p.bind f) (q.bind f)

instance : Monad (Prog S) where
  pure := Prog.pure
  bind := Prog.bind

/-- The program that performs `o` and returns its answer. -/
def call (o : S.Op) : Prog S (S.Ans o) := .op o .pure

@[simp] theorem bind_eq (p : Prog S α) (f : α → Prog S β) : p >>= f = p.bind f := rfl

@[simp] theorem pure_eq (a : α) : (Pure.pure a : Prog S α) = .pure a := rfl

theorem map_eq (f : α → β) (p : Prog S α) : f <$> p = p.bind fun a => .pure (f a) := rfl

theorem bind_bind (f : α → Prog S β) (g : β → Prog S γ) : ∀ p : Prog S α,
    (p.bind f).bind g = p.bind fun a => (f a).bind g
  | .pure _ => rfl
  | .op o k => congrArg (Prog.op o) (funext fun x => bind_bind f g (k x))
  | .choice p q => by simp only [bind, bind_bind f g p, bind_bind f g q]

theorem bind_pure : ∀ p : Prog S α, p.bind .pure = p
  | .pure _ => rfl
  | .op o k => congrArg (Prog.op o) (funext fun x => bind_pure (k x))
  | .choice p q => by simp only [bind, bind_pure p, bind_pure q]

instance : LawfulMonad (Prog S) :=
  LawfulMonad.mk' (Prog S) bind_pure (fun _ _ => rfl) (fun p f g => bind_bind f g p)

/-! ## Runs -/

/-- From `p`, the events of `tr` lead to `p'`. -/
inductive Steps : Prog S α → Trace S → Prog S α → Prop
  | refl (p : Prog S α) : Steps p [] p
  | op {o : S.Op} {k : S.Ans o → Prog S α} {x : S.Ans o} {tr : Trace S} {p' : Prog S α} :
      Steps (k x) tr p' → Steps (.op o k) (⟨o, x⟩ :: tr) p'
  | left {p q p' : Prog S α} {tr : Trace S} : Steps p tr p' → Steps (.choice p q) tr p'
  | right {p q p' : Prog S α} {tr : Trace S} : Steps q tr p' → Steps (.choice p q) tr p'

/-- The events of `tr` take `p` to its end, where it returns `a`. -/
def Run (p : Prog S α) (tr : Trace S) (a : α) : Prop := Steps p tr (.pure a)

theorem Steps.trans {p q r : Prog S α} {tr tr' : Trace S} (h : Steps p tr q)
    (h' : Steps q tr' r) : Steps p (tr ++ tr') r := by
  induction h with
  | refl p => exact h'
  | op _ ih => exact .op (ih h')
  | left _ ih => exact .left (ih h')
  | right _ ih => exact .right (ih h')

theorem Steps.bind {p p' : Prog S α} {tr : Trace S} (h : Steps p tr p') (f : α → Prog S β) :
    Steps (p.bind f) tr (p'.bind f) := by
  induction h with
  | refl p => exact .refl _
  | op _ ih => exact .op ih
  | left _ ih => exact .left ih
  | right _ ih => exact .right ih

theorem Steps.snoc {p : Prog S α} {tr : Trace S} {o : S.Op} {k : S.Ans o → Prog S α}
    (h : Steps p tr (.op o k)) (x : S.Ans o) : Steps p (tr ++ [⟨o, x⟩]) (k x) :=
  h.trans (.op (.refl _))

/-- A partial run passes through every point of its trace. -/
theorem Steps.split {p r : Prog S α} {tr tr' : Trace S} (h : Steps p (tr ++ tr') r) :
    ∃ q, Steps p tr q ∧ Steps q tr' r := by
  generalize hl : tr ++ tr' = l at h
  induction h generalizing tr with
  | refl p =>
    obtain ⟨rfl, rfl⟩ := List.append_eq_nil_iff.1 hl
    exact ⟨p, .refl p, .refl p⟩
  | @op o k x l p' h ih =>
    rcases tr with _ | ⟨e, tr⟩
    · rw [List.nil_append] at hl
      subst hl
      exact ⟨_, .refl _, .op h⟩
    · rw [List.cons_append, List.cons.injEq] at hl
      obtain ⟨rfl, hl⟩ := hl
      obtain ⟨q, h₁, h₂⟩ := ih hl
      exact ⟨q, .op h₁, h₂⟩
  | left _ ih =>
    obtain ⟨q, h₁, h₂⟩ := ih hl
    exact ⟨q, .left h₁, h₂⟩
  | right _ ih =>
    obtain ⟨q, h₁, h₂⟩ := ih hl
    exact ⟨q, .right h₁, h₂⟩

theorem run_pure {a b : α} {tr : Trace S} :
    Run (Prog.pure a : Prog S α) tr b ↔ tr = [] ∧ b = a := by
  constructor
  · intro h
    cases h
    exact ⟨rfl, rfl⟩
  · rintro ⟨rfl, rfl⟩
    exact .refl _

theorem run_op {o : S.Op} {k : S.Ans o → Prog S α} {tr : Trace S} {a : α} :
    Run (.op o k) tr a ↔ ∃ x tr', tr = ⟨o, x⟩ :: tr' ∧ Run (k x) tr' a := by
  constructor
  · intro h
    cases h with
    | op h => exact ⟨_, _, rfl, h⟩
  · rintro ⟨x, tr', rfl, h⟩
    exact .op h

theorem run_choice {p q : Prog S α} {tr : Trace S} {a : α} :
    Run (.choice p q) tr a ↔ Run p tr a ∨ Run q tr a := by
  constructor
  · intro h
    cases h with
    | left h => exact .inl h
    | right h => exact .inr h
  · rintro (h | h)
    · exact .left h
    · exact .right h

theorem run_call {o : S.Op} {tr : Trace S} {x : S.Ans o} :
    Run (call o) tr x ↔ tr = [⟨o, x⟩] := by
  simp only [call, run_op, run_pure]
  constructor
  · rintro ⟨y, tr', rfl, rfl, rfl⟩
    rfl
  · rintro rfl
    exact ⟨x, [], rfl, rfl, rfl⟩

theorem run_bind {f : α → Prog S β} {b : β} : ∀ {p : Prog S α} {tr : Trace S},
    Run (p.bind f) tr b ↔
      ∃ tr₁ tr₂ a, tr = tr₁ ++ tr₂ ∧ Run p tr₁ a ∧ Run (f a) tr₂ b := by
  intro p
  induction p with
  | pure a =>
    intro tr
    constructor
    · exact fun h => ⟨[], tr, a, rfl, .refl _, h⟩
    · rintro ⟨tr₁, tr₂, a', rfl, h₁, h₂⟩
      obtain ⟨rfl, rfl⟩ := run_pure.1 h₁
      exact h₂
  | op o k ih =>
    intro tr
    simp only [bind, run_op, ih]
    constructor
    · rintro ⟨x, tr', rfl, tr₁, tr₂, a, rfl, h₁, h₂⟩
      exact ⟨⟨o, x⟩ :: tr₁, tr₂, a, rfl, ⟨x, tr₁, rfl, h₁⟩, h₂⟩
    · rintro ⟨tr₁, tr₂, a, rfl, ⟨x, tr', rfl, h₁⟩, h₂⟩
      exact ⟨x, tr' ++ tr₂, rfl, tr', tr₂, a, rfl, h₁, h₂⟩
  | choice p q ihp ihq =>
    intro tr
    simp only [bind, run_choice, ihp, ihq]
    constructor
    · rintro (⟨tr₁, tr₂, a, rfl, h₁, h₂⟩ | ⟨tr₁, tr₂, a, rfl, h₁, h₂⟩)
      · exact ⟨tr₁, tr₂, a, rfl, .inl h₁, h₂⟩
      · exact ⟨tr₁, tr₂, a, rfl, .inr h₁, h₂⟩
    · rintro ⟨tr₁, tr₂, a, rfl, h₁ | h₁, h₂⟩
      · exact .inl ⟨tr₁, tr₂, a, rfl, h₁, h₂⟩
      · exact .inr ⟨tr₁, tr₂, a, rfl, h₁, h₂⟩

/-- A partial run of `p` then `f` is one of `p`, or a run of `p` and a partial run of `f`. -/
theorem steps_bind {f : α → Prog S β} {r : Prog S β} : ∀ {p : Prog S α} {tr : Trace S},
    Steps (p.bind f) tr r →
      (∃ p', Steps p tr p' ∧ r = p'.bind f)
        ∨ ∃ tr₁ tr₂ a, tr = tr₁ ++ tr₂ ∧ Run p tr₁ a ∧ Steps (f a) tr₂ r := by
  intro p
  induction p with
  | pure a => exact fun h => .inr ⟨[], _, a, rfl, .refl _, h⟩
  | op o k ih =>
    intro tr h
    cases h with
    | refl => exact .inl ⟨_, .refl _, rfl⟩
    | op h =>
      rcases ih _ h with ⟨p', hp, hr⟩ | ⟨tr₁, tr₂, a, rfl, h₁, h₂⟩
      · exact .inl ⟨p', .op hp, hr⟩
      · exact .inr ⟨_ :: tr₁, tr₂, a, rfl, .op h₁, h₂⟩
  | choice p q ihp ihq =>
    intro tr h
    cases h with
    | refl => exact .inl ⟨_, .refl _, rfl⟩
    | left h =>
      rcases ihp h with ⟨p', hp, hr⟩ | ⟨tr₁, tr₂, a, rfl, h₁, h₂⟩
      · exact .inl ⟨p', .left hp, hr⟩
      · exact .inr ⟨tr₁, tr₂, a, rfl, .left h₁, h₂⟩
    | right h =>
      rcases ihq h with ⟨p', hp, hr⟩ | ⟨tr₁, tr₂, a, rfl, h₁, h₂⟩
      · exact .inl ⟨p', .right hp, hr⟩
      · exact .inr ⟨tr₁, tr₂, a, rfl, .right h₁, h₂⟩

theorem steps_pure {a : α} {p : Prog S α} {tr : Trace S} (h : Steps (.pure a) tr p) :
    tr = [] := by
  cases h
  rfl

/-- What follows `p` without an operation adds none to its partial runs. -/
theorem steps_of_bind_pure {f : α → Prog S β} (hf : ∀ a, ∃ b, f a = .pure b) {p : Prog S α}
    {tr : Trace S} {r : Prog S β} (h : Steps (p.bind f) tr r) : ∃ p', Steps p tr p' := by
  rcases steps_bind h with ⟨p', hp, -⟩ | ⟨tr₁, tr₂, a, rfl, h₁, h₂⟩
  · exact ⟨p', hp⟩
  · obtain ⟨b, hb⟩ := hf a
    rw [hb] at h₂
    obtain rfl := steps_pure h₂
    exact ⟨_, (List.append_nil tr₁).symm ▸ h₁⟩

/-! ## Two programs at once -/

/-- `join` past its first program's operation `o`, whose continuations join as `rec` does. -/
def joinOp (o : S.Op) (rec : S.Ans o → Prog S β → Prog S (α × β)) : Prog S β → Prog S (α × β)
  | .pure b => .op o fun x => rec x (.pure b)
  | .op o' k' =>
    .choice (.op o fun x => rec x (.op o' k')) (.op o' fun y => joinOp o rec (k' y))
  | .choice q₁ q₂ => .choice (joinOp o rec q₁) (joinOp o rec q₂)

/-- Runs both programs, one operation of either at a time, until both have returned. -/
def join : Prog S α → Prog S β → Prog S (α × β)
  | .pure a, q => q.bind fun b => .pure (a, b)
  | .op o k, q => joinOp o (fun x => join (k x)) q
  | .choice p₁ p₂, q => .choice (join p₁ q) (join p₂ q)

end Prog

/-- `l` is made of the elements of `l₁` and those of `l₂`, each in their own order. -/
inductive Shuffle {α : Type*} : List α → List α → List α → Prop
  | nil : Shuffle [] [] []
  | left {x : α} {l₁ l₂ l : List α} : Shuffle l₁ l₂ l → Shuffle (x :: l₁) l₂ (x :: l)
  | right {x : α} {l₁ l₂ l : List α} : Shuffle l₁ l₂ l → Shuffle l₁ (x :: l₂) (x :: l)

namespace Shuffle

variable {α : Type*} {l₁ l₂ l : List α}

theorem left_nil : ∀ l : List α, Shuffle l [] l
  | [] => .nil
  | _ :: l => .left (left_nil l)

theorem right_nil : ∀ l : List α, Shuffle [] l l
  | [] => .nil
  | _ :: l => .right (right_nil l)

theorem append : ∀ l₁ l₂ : List α, Shuffle l₁ l₂ (l₁ ++ l₂)
  | [], l₂ => right_nil l₂
  | _ :: l₁, l₂ => .left (append l₁ l₂)

theorem eq_of_left_nil (h : Shuffle [] l₂ l) : l = l₂ := by
  induction l generalizing l₂ with
  | nil => cases h; rfl
  | cons x l ih =>
    cases h with
    | right h => rw [ih h]

theorem eq_of_right_nil (h : Shuffle l₁ [] l) : l = l₁ := by
  induction l generalizing l₁ with
  | nil => cases h; rfl
  | cons x l ih =>
    cases h with
    | left h => rw [ih h]

theorem mem (h : Shuffle l₁ l₂ l) {x : α} : x ∈ l ↔ x ∈ l₁ ∨ x ∈ l₂ := by
  induction h with
  | nil => simp
  | left _ ih => simp only [List.mem_cons, ih, or_assoc]
  | right _ ih => simp only [List.mem_cons, ih]; tauto

theorem filter (h : Shuffle l₁ l₂ l) (P : α → Bool) :
    Shuffle (l₁.filter P) (l₂.filter P) (l.filter P) := by
  induction h with
  | nil => exact .nil
  | @left x _ _ _ _ ih =>
    by_cases hx : P x
    · simpa [List.filter_cons, hx] using .left ih
    · simpa [List.filter_cons, hx] using ih
  | @right x _ _ _ _ ih =>
    by_cases hx : P x
    · simpa [List.filter_cons, hx] using .right ih
    · simpa [List.filter_cons, hx] using ih

theorem filterMap {β : Type*} (h : Shuffle l₁ l₂ l) (f : α → Option β) :
    Shuffle (l₁.filterMap f) (l₂.filterMap f) (l.filterMap f) := by
  induction h with
  | nil => exact .nil
  | @left x _ _ _ _ ih =>
    rcases hx : f x with _ | y
    · simpa [List.filterMap_cons, hx] using ih
    · simpa [List.filterMap_cons, hx] using .left ih
  | @right x _ _ _ _ ih =>
    rcases hx : f x with _ | y
    · simpa [List.filterMap_cons, hx] using ih
    · simpa [List.filterMap_cons, hx] using .right ih

end Shuffle

namespace Prog

variable {S : Sig} {α β : Type}

theorem run_joinOp {o : S.Op} {k : S.Ans o → Prog S α}
    (ih : ∀ (x : S.Ans o) (q : Prog S β) (tr : Trace S) (a : α) (b : β),
      Run (join (k x) q) tr (a, b) ↔
        ∃ tr₁ tr₂, Shuffle tr₁ tr₂ tr ∧ Run (k x) tr₁ a ∧ Run q tr₂ b) :
    ∀ (q : Prog S β) (tr : Trace S) (a : α) (b : β),
      Run (joinOp o (fun x => join (k x)) q) tr (a, b) ↔
        ∃ tr₁ tr₂, Shuffle tr₁ tr₂ tr ∧ Run (.op o k) tr₁ a ∧ Run q tr₂ b := by
  intro q
  induction q with
  | pure b' =>
    intro tr a b
    simp only [joinOp, run_op, ih, run_pure]
    constructor
    · rintro ⟨x, tr', rfl, tr₁, tr₂, hs, h₁, rfl, rfl⟩
      exact ⟨⟨o, x⟩ :: tr₁, [], .left hs, ⟨x, tr₁, rfl, h₁⟩, rfl, rfl⟩
    · rintro ⟨tr₁, tr₂, hs, ⟨x, tr', rfl, h₁⟩, rfl, rfl⟩
      obtain rfl := hs.eq_of_right_nil
      exact ⟨x, tr', rfl, tr', [], .left_nil _, h₁, rfl, rfl⟩
  | op o' k' ihq =>
    intro tr a b
    simp only [joinOp, run_choice, run_op, ih]
    constructor
    · rintro (⟨x, tr', rfl, tr₁, tr₂, hs, h₁, y, tr₂', rfl, h₂⟩ | ⟨y, tr', rfl, h⟩)
      · exact ⟨⟨o, x⟩ :: tr₁, _, .left hs, ⟨x, tr₁, rfl, h₁⟩, y, tr₂', rfl, h₂⟩
      · obtain ⟨tr₁, tr₂, hs, h₁, h₂⟩ := (ihq y tr' a b).1 h
        exact ⟨tr₁, ⟨o', y⟩ :: tr₂, .right hs, run_op.1 h₁, y, tr₂, rfl, h₂⟩
    · rintro ⟨tr₁, tr₂, hs, ⟨x, tr₁', rfl, h₁⟩, y, tr₂', rfl, h₂⟩
      cases hs with
      | left hs => exact .inl ⟨x, _, rfl, tr₁', _, hs, h₁, y, tr₂', rfl, h₂⟩
      | right hs =>
        refine .inr ⟨y, _, rfl, (ihq y _ a b).2 ⟨_, tr₂', hs, ?_, h₂⟩⟩
        exact run_op.2 ⟨x, tr₁', rfl, h₁⟩
  | choice q₁ q₂ ih₁ ih₂ =>
    intro tr a b
    simp only [joinOp, run_choice, ih₁, ih₂]
    constructor
    · rintro (⟨tr₁, tr₂, hs, h₁, h₂⟩ | ⟨tr₁, tr₂, hs, h₁, h₂⟩)
      · exact ⟨tr₁, tr₂, hs, h₁, .inl h₂⟩
      · exact ⟨tr₁, tr₂, hs, h₁, .inr h₂⟩
    · rintro ⟨tr₁, tr₂, hs, h₁, h₂ | h₂⟩
      · exact .inl ⟨tr₁, tr₂, hs, h₁, h₂⟩
      · exact .inr ⟨tr₁, tr₂, hs, h₁, h₂⟩

/-- The runs of two programs at once are the interleavings of their runs. -/
theorem run_join (p : Prog S α) : ∀ (q : Prog S β) (tr : Trace S) (a : α) (b : β),
    Run (join p q) tr (a, b) ↔
      ∃ tr₁ tr₂, Shuffle tr₁ tr₂ tr ∧ Run p tr₁ a ∧ Run q tr₂ b := by
  induction p with
  | pure a' =>
    intro q tr a b
    simp only [join, run_bind, run_pure, Prod.mk.injEq]
    constructor
    · rintro ⟨tr₁, tr₂, b', rfl, h, rfl, rfl, rfl⟩
      exact ⟨[], tr₁, by simpa using .right_nil tr₁, ⟨rfl, rfl⟩, h⟩
    · rintro ⟨tr₁, tr₂, hs, ⟨rfl, rfl⟩, h⟩
      obtain rfl := hs.eq_of_left_nil
      exact ⟨_, [], b, by simp, h, rfl, rfl, rfl⟩
  | op o k ih => exact run_joinOp ih
  | choice p₁ p₂ ih₁ ih₂ =>
    intro q tr a b
    simp only [join, run_choice, ih₁, ih₂]
    constructor
    · rintro (⟨tr₁, tr₂, hs, h₁, h₂⟩ | ⟨tr₁, tr₂, hs, h₁, h₂⟩)
      · exact ⟨tr₁, tr₂, hs, .inl h₁, h₂⟩
      · exact ⟨tr₁, tr₂, hs, .inr h₁, h₂⟩
    · rintro ⟨tr₁, tr₂, hs, h₁ | h₁, h₂⟩
      · exact .inl ⟨tr₁, tr₂, hs, h₁, h₂⟩
      · exact .inr ⟨tr₁, tr₂, hs, h₁, h₂⟩

theorem steps_joinOp {o : S.Op} {k : S.Ans o → Prog S α}
    (ih : ∀ (x : S.Ans o) (q : Prog S β) (tr : Trace S) (r : Prog S (α × β)),
      Steps (join (k x) q) tr r →
        ∃ tr₁ tr₂ p' q', Shuffle tr₁ tr₂ tr ∧ Steps (k x) tr₁ p' ∧ Steps q tr₂ q') :
    ∀ (q : Prog S β) (tr : Trace S) (r : Prog S (α × β)),
      Steps (joinOp o (fun x => join (k x)) q) tr r →
        ∃ tr₁ tr₂ p' q', Shuffle tr₁ tr₂ tr ∧ Steps (.op o k) tr₁ p' ∧ Steps q tr₂ q' := by
  intro q
  induction q with
  | pure b =>
    intro tr r h
    cases h with
    | refl => exact ⟨[], [], _, _, .nil, .refl _, .refl _⟩
    | op h =>
      obtain ⟨tr₁, tr₂, p', q', hs, h₁, h₂⟩ := ih _ _ _ _ h
      exact ⟨_ :: tr₁, tr₂, p', q', .left hs, .op h₁, h₂⟩
  | op o' k' ihq =>
    intro tr r h
    cases h with
    | refl => exact ⟨[], [], _, _, .nil, .refl _, .refl _⟩
    | left h =>
      cases h with
      | refl => exact ⟨[], [], _, _, .nil, .refl _, .refl _⟩
      | op h =>
        obtain ⟨tr₁, tr₂, p', q', hs, h₁, h₂⟩ := ih _ _ _ _ h
        exact ⟨_ :: tr₁, tr₂, p', q', .left hs, .op h₁, h₂⟩
    | right h =>
      cases h with
      | refl => exact ⟨[], [], _, _, .nil, .refl _, .refl _⟩
      | op h =>
        obtain ⟨tr₁, tr₂, p', q', hs, h₁, h₂⟩ := ihq _ _ _ h
        exact ⟨tr₁, _ :: tr₂, p', q', .right hs, h₁, .op h₂⟩
  | choice q₁ q₂ ih₁ ih₂ =>
    intro tr r h
    cases h with
    | refl => exact ⟨[], [], _, _, .nil, .refl _, .refl _⟩
    | left h =>
      obtain ⟨tr₁, tr₂, p', q', hs, h₁, h₂⟩ := ih₁ _ _ h
      exact ⟨tr₁, tr₂, p', q', hs, h₁, .left h₂⟩
    | right h =>
      obtain ⟨tr₁, tr₂, p', q', hs, h₁, h₂⟩ := ih₂ _ _ h
      exact ⟨tr₁, tr₂, p', q', hs, h₁, .right h₂⟩

theorem steps_join (p : Prog S α) : ∀ (q : Prog S β) (tr : Trace S) (r : Prog S (α × β)),
    Steps (join p q) tr r →
      ∃ tr₁ tr₂ p' q', Shuffle tr₁ tr₂ tr ∧ Steps p tr₁ p' ∧ Steps q tr₂ q' := by
  induction p with
  | pure a =>
    intro q tr r h
    rcases steps_bind h with ⟨q', hq, -⟩ | ⟨tr₁, tr₂, b, rfl, hq, hb⟩
    · exact ⟨[], tr, _, q', .right_nil _, .refl _, hq⟩
    · cases hb
      exact ⟨[], tr₁, _, _, by simpa using .right_nil tr₁, .refl _, hq⟩
  | op o k ih => exact steps_joinOp ih
  | choice p₁ p₂ ih₁ ih₂ =>
    intro q tr r h
    cases h with
    | refl => exact ⟨[], [], _, _, .nil, .refl _, .refl _⟩
    | left h =>
      obtain ⟨tr₁, tr₂, p', q', hs, h₁, h₂⟩ := ih₁ _ _ _ h
      exact ⟨tr₁, tr₂, p', q', hs, .left h₁, h₂⟩
    | right h =>
      obtain ⟨tr₁, tr₂, p', q', hs, h₁, h₂⟩ := ih₂ _ _ _ h
      exact ⟨tr₁, tr₂, p', q', hs, .right h₁, h₂⟩

theorem joinOp_map {α' β' : Type} {o : S.Op} {k : S.Ans o → Prog S α} (f : α → α') (g : β → β')
    (ih : ∀ (x : S.Ans o) (q : Prog S β),
      join ((k x).bind fun a => .pure (f a)) (q.bind fun b => .pure (g b))
        = (join (k x) q).bind fun r => .pure (f r.1, g r.2)) (q : Prog S β) :
    joinOp o (fun x => join ((k x).bind fun a => .pure (f a))) (q.bind fun b => .pure (g b))
      = (joinOp o (fun x => join (k x)) q).bind fun r => .pure (f r.1, g r.2) := by
  induction q with
  | pure b =>
    simp only [bind, joinOp]
    congr 1
    funext x
    exact ih x (.pure b)
  | op o' k' ihq =>
    simp only [bind, joinOp]
    congr 2
    · funext x
      exact ih x (.op o' k')
    · funext y
      exact ihq y
  | choice q₁ q₂ ih₁ ih₂ => simp only [bind, joinOp, ih₁, ih₂]

/-- What becomes of two programs' results can be done after both have returned. -/
theorem join_map {α' β' : Type} (f : α → α') (g : β → β') (p : Prog S α) : ∀ q : Prog S β,
    join (p.bind fun a => .pure (f a)) (q.bind fun b => .pure (g b))
      = (join p q).bind fun r => .pure (f r.1, g r.2) := by
  induction p with
  | pure a =>
    intro q
    simp only [bind, join, bind_bind]
  | op o k ih => exact fun q => joinOp_map f g ih q
  | choice p₁ p₂ ih₁ ih₂ =>
    intro q
    simp only [bind, join, ih₁, ih₂]

/-! ## Any order -/

/-- The list with `x` somewhere in it. -/
def insertAny (x : α) : List α → Prog S (List α)
  | [] => .pure [x]
  | y :: l => .choice (.pure (x :: y :: l)) ((insertAny x l).bind fun l' => .pure (y :: l'))

/-- The list in some order. -/
def anyOrder : List α → Prog S (List α)
  | [] => .pure []
  | x :: l => (anyOrder l).bind (insertAny x)

theorem run_insertAny {x : α} {l l' : List α} {tr : Trace S} (h : Run (insertAny x l) tr l') :
    tr = [] ∧ l'.Perm (x :: l) := by
  induction l generalizing tr l' with
  | nil =>
    obtain ⟨rfl, rfl⟩ := run_pure.1 h
    exact ⟨rfl, .refl _⟩
  | cons y l ih =>
    rcases run_choice.1 h with h | h
    · obtain ⟨rfl, rfl⟩ := run_pure.1 h
      exact ⟨rfl, .refl _⟩
    · obtain ⟨tr₁, tr₂, l₁, rfl, h₁, h₂⟩ := run_bind.1 h
      obtain ⟨rfl, rfl⟩ := run_pure.1 h₂
      obtain ⟨rfl, hp⟩ := ih h₁
      exact ⟨rfl, (hp.cons y).trans (.swap x y l)⟩

theorem run_anyOrder {l l' : List α} {tr : Trace S} (h : Run (anyOrder l) tr l') :
    tr = [] ∧ l'.Perm l := by
  induction l generalizing tr l' with
  | nil =>
    obtain ⟨rfl, rfl⟩ := run_pure.1 h
    exact ⟨rfl, .refl _⟩
  | cons x l ih =>
    obtain ⟨tr₁, tr₂, l₁, rfl, h₁, h₂⟩ := run_bind.1 h
    obtain ⟨rfl, hp⟩ := ih h₁
    obtain ⟨rfl, hq⟩ := run_insertAny h₂
    exact ⟨rfl, hq.trans (hp.cons x)⟩

theorem run_insertAny_append (x : α) (l₁ l₂ : List α) :
    Run (insertAny x (l₁ ++ l₂) : Prog S (List α)) [] (l₁ ++ x :: l₂) := by
  induction l₁ with
  | nil =>
    cases l₂ with
    | nil => exact run_pure.2 ⟨rfl, rfl⟩
    | cons y l => exact run_choice.2 (.inl (run_pure.2 ⟨rfl, rfl⟩))
  | cons y l₁ ih =>
    exact run_choice.2 (.inr (run_bind.2 ⟨[], [], _, rfl, ih, run_pure.2 ⟨rfl, rfl⟩⟩))

/-- Every order comes up. -/
theorem run_anyOrder_of_perm {l l' : List α} (h : l'.Perm l) :
    Run (anyOrder l : Prog S (List α)) [] l' := by
  induction l generalizing l' with
  | nil =>
    rw [h.eq_nil]
    exact run_pure.2 ⟨rfl, rfl⟩
  | cons x l ih =>
    obtain ⟨l₁, l₂, rfl⟩ := List.append_of_mem (h.mem_iff.2 List.mem_cons_self)
    have hrest : (l₁ ++ l₂).Perm l := (List.perm_middle.symm.trans h).cons_inv
    exact run_bind.2 ⟨[], [], _, rfl, ih hrest, run_insertAny_append x l₁ l₂⟩

/-! ## Programs without a choice -/

/-- The program leaves nothing to the scheduler. -/
inductive Linear : Prog S α → Prop
  | pure (a : α) : Linear (.pure a)
  | op {o : S.Op} {k : S.Ans o → Prog S α} : (∀ x, Linear (k x)) → Linear (.op o k)

theorem Linear.call (o : S.Op) : Linear (Prog.call o : Prog S (S.Ans o)) := .op fun _ => .pure _

theorem Linear.bind {p : Prog S α} {f : α → Prog S β} (hp : Linear p)
    (hf : ∀ a, Linear (f a)) : Linear (p.bind f) := by
  induction hp with
  | pure a => exact hf a
  | op _ ih => exact .op ih

/-- With a program that has returned there is nothing to interleave. -/
theorem Linear.join_pure {p : Prog S α} (hp : Linear p) (b : β) :
    Linear (Prog.join p (.pure b)) := by
  induction hp with
  | pure a => exact .pure _
  | op _ ih => exact .op ih

/-- The answers a program without a choice gets determine where it ends, and what it returns. -/
theorem Linear.run_prefix {p : Prog S α} (hp : Linear p) {tr₁ tr₂ s₁ s₂ : Trace S} {a b : α}
    (ha : Run p tr₁ a) (hb : Run p tr₂ b) (h : tr₁ ++ s₁ = tr₂ ++ s₂) : tr₁ = tr₂ ∧ a = b := by
  induction hp generalizing tr₁ tr₂ with
  | pure a' =>
    obtain ⟨rfl, rfl⟩ := run_pure.1 ha
    obtain ⟨rfl, rfl⟩ := run_pure.1 hb
    exact ⟨rfl, rfl⟩
  | op _ ih =>
    obtain ⟨x, tr₁, rfl, h₁⟩ := run_op.1 ha
    obtain ⟨y, tr₂, rfl, h₂⟩ := run_op.1 hb
    simp only [List.cons_append, List.cons.injEq, Sigma.mk.injEq, true_and] at h
    obtain ⟨hx, h⟩ := h
    obtain rfl := eq_of_heq hx
    obtain ⟨rfl, rfl⟩ := ih x h₁ h₂ h
    exact ⟨rfl, rfl⟩

/-- With the same answers it returns the same. -/
theorem Linear.run_unique {p : Prog S α} (hp : Linear p) {tr : Trace S} {a b : α}
    (ha : Run p tr a) (hb : Run p tr b) : a = b := by
  have h : tr ++ [] = tr ++ [] := rfl
  exact (hp.run_prefix ha hb h).2

/-! ## What every partial run keeps -/

/-- `P` holds of the trace of every partial run of `p`. -/
def Always (P : Trace S → Prop) (p : Prog S α) : Prop := ∀ tr p', Steps p tr p' → P tr

/-- A trace property that holds before the first event and of any interleaving of traces that
have it. -/
structure Mixes (P : Trace S → Prop) : Prop where
  nil : P []
  shuffle : ∀ {l₁ l₂ l : Trace S}, Shuffle l₁ l₂ l → P l₁ → P l₂ → P l

/-- Every event of the trace is one of those `P` holds of. -/
def Only (P : Event S → Prop) (tr : Trace S) : Prop := ∀ e ∈ tr, P e

theorem only_singleton {P : Event S → Prop} {e : Event S} : Only P [e] ↔ P e :=
  List.forall_mem_singleton

theorem mixes_only (P : Event S → Prop) : Mixes (Only P) where
  nil := by simp [Only]
  shuffle := by
    intro l₁ l₂ l hs h₁ h₂ e he
    rcases hs.mem.1 he with he | he
    · exact h₁ e he
    · exact h₂ e he

variable {P : Trace S → Prop}

theorem Always.run {p : Prog S α} (h : Always P p) {tr : Trace S} {a : α} (hr : Run p tr a) :
    P tr := h tr _ hr

theorem Always.mono {P' : Trace S → Prop} {p : Prog S α} (h : Always P p)
    (hP : ∀ tr, P tr → P' tr) : Always P' p := fun tr p' hs => hP tr (h tr p' hs)

theorem Only.mono {Q Q' : Event S → Prop} {tr : Trace S} (h : Only Q tr)
    (hQ : ∀ e, Q e → Q' e) : Only Q' tr := fun e he => hQ e (h e he)

theorem Mixes.pure (hP : Mixes P) (a : α) : Always P (Prog.pure a : Prog S α) := by
  intro tr p' h
  cases h
  exact hP.nil

theorem Mixes.call (hP : Mixes P) {o : S.Op} (ho : ∀ x, P [⟨o, x⟩]) : Always P (call o) := by
  intro tr p' h
  cases h with
  | refl => exact hP.nil
  | op h =>
    cases h
    exact ho _

theorem Mixes.bind (hP : Mixes P) {p : Prog S α} {f : α → Prog S β} (hp : Always P p)
    (hf : ∀ a, Always P (f a)) : Always P (p.bind f) := by
  intro tr r h
  rcases steps_bind h with ⟨p', h, -⟩ | ⟨tr₁, tr₂, a, rfl, h₁, h₂⟩
  · exact hp tr p' h
  · exact hP.shuffle (.append _ _) (hp.run h₁) (hf a _ _ h₂)

theorem Mixes.join (hP : Mixes P) {p : Prog S α} {q : Prog S β} (hp : Always P p)
    (hq : Always P q) : Always P (join p q) := by
  intro tr r h
  obtain ⟨tr₁, tr₂, p', q', hs, h₁, h₂⟩ := steps_join p q tr r h
  exact hP.shuffle hs (hp _ _ h₁) (hq _ _ h₂)

/-! ## Programs that can stop early -/

section Except

variable {ε : Type}

/-- A run of `x` then `f` stops with an error of `x`, or is a run of `x` and one of `f`. -/
theorem run_exceptBind {x : ExceptT ε (Prog S) α} {f : α → ExceptT ε (Prog S) β} {tr : Trace S}
    {r : Except ε β} :
    Run (x >>= f).run tr r ↔ (∃ e, r = .error e ∧ Run x.run tr (.error e))
      ∨ ∃ tr₁ tr₂ a, tr = tr₁ ++ tr₂ ∧ Run x.run tr₁ (.ok a) ∧ Run (f a).run tr₂ r := by
  rw [ExceptT.run_bind, bind_eq, run_bind]
  constructor
  · rintro ⟨tr₁, tr₂, e | a, rfl, h₁, h₂⟩
    · obtain ⟨rfl, rfl⟩ := run_pure.1 h₂
      exact .inl ⟨e, rfl, by simpa using h₁⟩
    · exact .inr ⟨tr₁, tr₂, a, rfl, h₁, h₂⟩
  · rintro (⟨e, rfl, h⟩ | ⟨tr₁, tr₂, a, rfl, h₁, h₂⟩)
    · exact ⟨tr, [], .error e, by simp, h, run_pure.2 ⟨rfl, rfl⟩⟩
    · exact ⟨tr₁, tr₂, .ok a, rfl, h₁, h₂⟩

/-- A run that returns has gone through both parts. -/
theorem run_exceptBind_ok {x : ExceptT ε (Prog S) α} {f : α → ExceptT ε (Prog S) β} {tr : Trace S}
    {b : β} (h : Run (x >>= f).run tr (.ok b)) :
    ∃ tr₁ tr₂ a, tr = tr₁ ++ tr₂ ∧ Run x.run tr₁ (.ok a) ∧ Run (f a).run tr₂ (.ok b) := by
  rcases run_exceptBind.1 h with ⟨e, he, -⟩ | h
  · cases he
  · exact h

theorem run_exceptPure {a : α} {tr : Trace S} {r : Except ε α} :
    Run (Pure.pure a : ExceptT ε (Prog S) α).run tr r ↔ tr = [] ∧ r = .ok a := by
  rw [ExceptT.run_pure, pure_eq, run_pure]

theorem run_throw {e : ε} {tr : Trace S} {r : Except ε α} :
    Run (throw e : ExceptT ε (Prog S) α).run tr r ↔ tr = [] ∧ r = .error e := by
  rw [ExceptT.run_throw, pure_eq, run_pure]

theorem run_lift {p : Prog S α} {tr : Trace S} {r : Except ε α} :
    Run (ExceptT.lift p : ExceptT ε (Prog S) α).run tr r ↔ ∃ a, r = .ok a ∧ Run p tr a := by
  rw [ExceptT.run_lift]
  show Run (p.bind fun a => .pure (.ok a)) tr r ↔ _
  rw [run_bind]
  constructor
  · rintro ⟨tr₁, tr₂, a, rfl, h₁, h₂⟩
    obtain ⟨rfl, rfl⟩ := run_pure.1 h₂
    exact ⟨a, rfl, by simpa using h₁⟩
  · rintro ⟨a, rfl, h⟩
    exact ⟨tr, [], a, by simp, h, run_pure.2 ⟨rfl, rfl⟩⟩

theorem run_lift_ok {p : Prog S α} {tr : Trace S} {a : α} :
    Run (ExceptT.lift p : ExceptT ε (Prog S) α).run tr (.ok a) ↔ Run p tr a := by
  rw [run_lift]
  simp

theorem run_liftBind {p : Prog S α} {f : α → ExceptT ε (Prog S) β} {tr : Trace S}
    {r : Except ε β} : Run (ExceptT.lift p >>= f).run tr r ↔
      ∃ tr₁ tr₂ a, tr = tr₁ ++ tr₂ ∧ Run p tr₁ a ∧ Run (f a).run tr₂ r := by
  rw [run_exceptBind]
  constructor
  · rintro (⟨e, rfl, h⟩ | ⟨tr₁, tr₂, a, rfl, h₁, h₂⟩)
    · obtain ⟨x, hx, -⟩ := run_lift.1 h
      simp at hx
    · exact ⟨tr₁, tr₂, a, rfl, run_lift_ok.1 h₁, h₂⟩
  · rintro ⟨tr₁, tr₂, a, rfl, h₁, h₂⟩
    exact .inr ⟨tr₁, tr₂, a, rfl, run_lift_ok.2 h₁, h₂⟩

theorem run_adapt_eq {ε' : Type} (f : ε → ε') (x : ExceptT ε (Prog S) α) :
    (ExceptT.adapt f x).run = x.run.bind fun r => .pure (r.mapError f) := rfl

theorem adapt_bind {ε' : Type} (f : ε → ε') (x : ExceptT ε (Prog S) α) (g : α → ExceptT ε (Prog S) β) :
    ExceptT.adapt f (x >>= g) = ExceptT.adapt f x >>= fun a => ExceptT.adapt f (g a) := by
  apply ExceptT.ext
  rw [ExceptT.run_bind, run_adapt_eq, run_adapt_eq, ExceptT.run_bind]
  simp only [bind_eq, bind_bind]
  congr 1
  funext r
  rcases r with e | a
  · rfl
  · rfl

theorem run_adapt {ε' : Type} {f : ε → ε'} {x : ExceptT ε (Prog S) α} {tr : Trace S}
    {r : Except ε' α} :
    Run (ExceptT.adapt f x).run tr r ↔ ∃ r', r = r'.mapError f ∧ Run x.run tr r' := by
  rw [run_adapt_eq, run_bind]
  constructor
  · rintro ⟨tr₁, tr₂, r', rfl, h₁, h₂⟩
    obtain ⟨rfl, rfl⟩ := run_pure.1 h₂
    exact ⟨r', rfl, by simpa using h₁⟩
  · rintro ⟨r', rfl, h⟩
    exact ⟨tr, [], r', by simp, h, run_pure.2 ⟨rfl, rfl⟩⟩

theorem run_adapt_ok {ε' : Type} {f : ε → ε'} {x : ExceptT ε (Prog S) α} {tr : Trace S} {a : α} :
    Run (ExceptT.adapt f x).run tr (.ok a) ↔ Run x.run tr (.ok a) := by
  rw [run_adapt]
  constructor
  · rintro ⟨e | a', hr, h⟩
    · cases hr
    · cases hr
      exact h
  · exact fun h => ⟨.ok a, rfl, h⟩

theorem run_adapt_error {ε' : Type} {f : ε → ε'} {x : ExceptT ε (Prog S) α} {tr : Trace S}
    {e : ε'} : Run (ExceptT.adapt f x).run tr (.error e) ↔
      ∃ e', e = f e' ∧ Run x.run tr (.error e') := by
  rw [run_adapt]
  constructor
  · rintro ⟨e' | a, hr, h⟩
    · cases hr
      exact ⟨e', rfl, h⟩
    · cases hr
  · rintro ⟨e', rfl, h⟩
    exact ⟨.error e', rfl, h⟩

theorem Linear.exceptBind {x : ExceptT ε (Prog S) α} {f : α → ExceptT ε (Prog S) β}
    (hx : Linear x.run) (hf : ∀ a, Linear (f a).run) : Linear (x >>= f).run := by
  rw [ExceptT.run_bind]
  refine hx.bind fun r => ?_
  rcases r with e | a
  · exact .pure _
  · exact hf a

theorem Linear.lift {p : Prog S α} (hp : Linear p) :
    Linear (ExceptT.lift p : ExceptT ε (Prog S) α).run := by
  rw [ExceptT.run_lift]
  exact hp.bind fun a => .pure _

/-- A partial run of `x` then `f` is one of `x`, or a run of `x` that returned and a partial run of
`f`. -/
theorem steps_exceptBind {x : ExceptT ε (Prog S) α} {f : α → ExceptT ε (Prog S) β} {tr : Trace S}
    {r : Prog S (Except ε β)} (h : Steps (x >>= f).run tr r) :
    (∃ p', Steps x.run tr p')
      ∨ ∃ tr₁ tr₂ a, tr = tr₁ ++ tr₂ ∧ Run x.run tr₁ (.ok a) ∧ Steps (f a).run tr₂ r := by
  rw [ExceptT.run_bind, bind_eq] at h
  rcases steps_bind h with ⟨p', h, -⟩ | ⟨tr₁, tr₂, e | a, rfl, h₁, h₂⟩
  · exact .inl ⟨p', h⟩
  · cases h₂
    exact .inl ⟨_, (List.append_nil tr₁).symm ▸ h₁⟩
  · exact .inr ⟨tr₁, tr₂, a, rfl, h₁, h₂⟩

/-- What comes after `x` only has to keep `P` for the values `x` can give. -/
theorem Mixes.exceptBind_of_run (hP : Mixes P) {x : ExceptT ε (Prog S) α}
    {f : α → ExceptT ε (Prog S) β} (hx : Always P x.run)
    (hf : ∀ a tr, Run x.run tr (.ok a) → Always P (f a).run) : Always P (x >>= f).run := by
  intro tr r h
  rcases steps_exceptBind h with ⟨p', h⟩ | ⟨tr₁, tr₂, a, rfl, h₁, h₂⟩
  · exact hx tr p' h
  · exact hP.shuffle (.append _ _) (hx.run h₁) (hf a tr₁ h₁ _ _ h₂)

theorem Mixes.exceptBind (hP : Mixes P) {x : ExceptT ε (Prog S) α}
    {f : α → ExceptT ε (Prog S) β} (hx : Always P x.run) (hf : ∀ a, Always P (f a).run) :
    Always P (x >>= f).run :=
  hP.exceptBind_of_run hx fun a _ _ => hf a

theorem Mixes.lift (hP : Mixes P) {p : Prog S α} (hp : Always P p) :
    Always P (ExceptT.lift p : ExceptT ε (Prog S) α).run := by
  rw [ExceptT.run_lift]
  exact hP.bind hp fun a => hP.pure _

end Except

end Prog

end Interact
