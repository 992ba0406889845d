import Teecryptor.Lib.System
import Mathlib.Data.List.Destutter

/-!
# Cells that are swapped

A machine with cells that some operations swap, each swap answered with the value it replaces. In
every run the swaps of a cell are linked: each was answered with the value the one before it left
(`Reachable.linked`), so the swaps that change the cell are the values it took, with the repeats
left out (`Linked.changed`).
-/

namespace Interact

variable {V : Type*}

/-- Swaps `(old, new)` that lead from the value `a` to the value `b`. -/
def Linked (a : V) : List (V × V) → V → Prop
  | [], b => a = b
  | (old, new) :: l, b => old = a ∧ Linked new l b

theorem Linked.append {a b c : V} : ∀ {l l' : List (V × V)}, Linked a l b → Linked b l' c →
    Linked a (l ++ l') c
  | [], _, h, h' => (show a = b from h) ▸ h'
  | _ :: _, _, ⟨hold, h⟩, h' => ⟨hold, h.append h'⟩

/-- The cell ends with the value that was swapped in last. -/
theorem Linked.last {a b : V} : ∀ {l : List (V × V)}, Linked a l b → (l.map (·.2)).getLastD a = b
  | [], h => h
  | (old, new) :: l, ⟨_, h⟩ => by
    rw [List.map_cons, List.getLastD_cons]
    exact h.last

variable [DecidableEq V]

/-- The values swapped in that were not there already. -/
def changed (l : List (V × V)) : List V := (l.filter fun p => p.1 ≠ p.2).map (·.2)

theorem changed_append (l l' : List (V × V)) : changed (l ++ l') = changed l ++ changed l' := by
  rw [changed, List.filter_append, List.map_append]
  rfl

theorem Linked.changed {a b : V} : ∀ {l : List (V × V)}, Linked a l b →
    a :: Interact.changed l = (l.map (·.2)).destutter' (· ≠ ·) a
  | [], _ => rfl
  | (old, new) :: l, ⟨hold, h⟩ => by
    subst hold
    by_cases hne : old ≠ new
    · rw [List.map_cons, List.destutter'_cons_pos _ hne, ← h.changed, Interact.changed,
        List.filter_cons_of_pos (by simpa using hne)]
      rfl
    · obtain rfl := not_not.1 hne
      rw [List.map_cons, List.destutter'_cons_neg _ hne, ← h.changed, Interact.changed,
        List.filter_cons_of_neg (by simp)]
      rfl

/-! ## The events about one cell -/

section About

variable {S : Sig} {κ : Type} {B : Type*} [DecidableEq κ]

/-- What `f` says about `k` of the events of `tr`. -/
def about (f : Event S → Option (κ × B)) (k : κ) (tr : Trace S) : List B :=
  tr.filterMap fun e => (f e).bind fun q => if q.1 = k then some q.2 else none

variable {f : Event S → Option (κ × B)} {k : κ}

@[simp] theorem about_nil : about f k [] = [] := rfl

theorem about_append (tr tr' : Trace S) : about f k (tr ++ tr') = about f k tr ++ about f k tr' :=
  List.filterMap_append

theorem about_cons (e : Event S) (tr : Trace S) : about f k (e :: tr) = match f e with
    | some (k', b) => if k' = k then b :: about f k tr else about f k tr
    | none => about f k tr := by
  rw [about, List.filterMap_cons]
  rcases f e with _ | ⟨k', b⟩
  · rfl
  · by_cases hk : k' = k <;> simp [hk, about]

end About

section Machine

variable {S : Sig} {κ ι R : Type} {V : Type*} {M : Machine S} [DecidableEq κ]

/-- The machine has cells that some operations swap, and nothing else changes. -/
structure Machine.Swaps (M : Machine S) (cell : M.State → κ → V)
    (swapped : Event S → Option (κ × V × V)) : Prop where
  old : ∀ {s s' : M.State} {o : S.Op} {x : S.Ans o} {k : κ} {a b : V}, M.perform s o x s' →
    swapped ⟨o, x⟩ = some (k, a, b) → a = cell s k
  new : ∀ {s s' : M.State} {o : S.Op} {x : S.Ans o}, M.perform s o x s' → ∀ k',
    cell s' k' = match swapped ⟨o, x⟩ with
      | some (k, _, b) => if k = k' then b else cell s k'
      | none => cell s k'
  env : ∀ {s s' : M.State}, M.env s s' → cell s' = cell s
  release : ∀ (s : M.State) (tr : Trace S), cell (M.release s tr) = cell s

variable {cell : M.State → κ → V} {swapped : Event S → Option (κ × V × V)}
  {prog : ι → Prog S R} {s₀ : M.State} {c : Config M ι R}

/-- In every run the swaps of a cell are linked. -/
theorem Reachable.linked (hM : M.Swaps cell swapped) (h : Reachable prog s₀ c) (k : κ) :
    Linked (cell s₀ k) (about swapped k (c.hist.map Entry.event)) (cell c.state k) := by
  refine h.invariant
    (I := fun s hist => Linked (cell s₀ k) (about swapped k (hist.map Entry.event)) (cell s k))
    rfl ?_ ?_ ?_
  · intro hist e ih hp
    rw [List.map_append, about_append]
    refine ih.append ?_
    have hnew := hM.new hp k
    rw [List.map_singleton, about_cons]
    rcases hs : swapped e.event with _ | ⟨k', a, b⟩
    · rw [show (⟨e.event.1, e.event.2⟩ : Event S) = e.event from rfl, hs] at hnew
      exact hnew.symm
    · rw [show (⟨e.event.1, e.event.2⟩ : Event S) = e.event from rfl, hs] at hnew
      simp only at hnew ⊢
      by_cases hk : k' = k
      · rw [if_pos hk] at hnew ⊢
        exact ⟨hk ▸ hM.old hp hs, hnew.symm⟩
      · rw [if_neg hk] at hnew ⊢
        exact hnew.symm
  · intro s s' hist ih henv
    rw [hM.env henv]
    exact ih
  · intro s hist tr ih
    rw [hM.release]
    exact ih

end Machine

end Interact
