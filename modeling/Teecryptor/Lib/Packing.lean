import Mathlib.Data.List.Basic

/-!
# Packing a sequence into bins

A sequence is dealt out in order into bins that hold at most `cap` items: the closed bins and the
open one. What holds of any such packing is kept by closing the open bin and by adding to it, and a
loop that adds one stretch after another deals out the concatenation.
-/

namespace Packing

variable {α β σ : Type*} {cap : ℕ}

/-- The closed bins and the open one hold `done`, in order; every closed bin holds something, and
none holds more than `cap` items. -/
structure Packed (cap : ℕ) (closed : List (List α)) (opened done : List α) : Prop where
  flatten : closed.flatten ++ opened = done
  nonempty : ∀ b ∈ closed, b ≠ []
  le : ∀ b ∈ closed, b.length ≤ cap
  open_le : opened.length ≤ cap

namespace Packed

variable {closed : List (List α)} {opened done : List α}

theorem nil (cap : ℕ) : Packed cap ([] : List (List α)) [] [] := by
  constructor <;> simp

/-- The open bin is closed, unless it is empty. -/
theorem close (h : Packed cap closed opened done) (hne : opened ≠ []) :
    Packed cap (closed ++ [opened]) [] done where
  flatten := by simp [← h.flatten]
  nonempty := by
    intro b hb
    rcases List.mem_append.1 hb with hb | hb
    · exact h.nonempty b hb
    · rwa [List.mem_singleton.1 hb]
  le := by
    intro b hb
    rcases List.mem_append.1 hb with hb | hb
    · exact h.le b hb
    · rw [List.mem_singleton.1 hb]
      exact h.open_le
  open_le := by simp

/-- What fits goes into the open bin. -/
theorem add (h : Packed cap closed opened done) {l : List α}
    (hl : opened.length + l.length ≤ cap) : Packed cap closed (opened ++ l) (done ++ l) where
  flatten := by rw [← List.append_assoc, h.flatten]
  nonempty := h.nonempty
  le := h.le
  open_le := by rwa [List.length_append]

end Packed

/-! ## Loops that append -/

/-- The next stretch of a list. -/
theorem take_append_stretch (l : List α) {start stop : ℕ} (h : start ≤ stop) :
    l.take start ++ (l.drop start).take (stop - start) = l.take stop := by
  rw [← List.take_add, Nat.add_sub_cancel' h]

/-- A loop whose every pass keeps `I` and appends `g a` to what is done appends, over a list, what
all its passes do. The body may have a parameter, such as a fuel, that changes nothing. -/
theorem foldlM_appends {ι : Type*} {m : Type _ → Type*} [Monad m] [LawfulMonad m]
    {f : ι → σ → α → m σ} {I : σ → List β → Prop} {g : α → List β} {l : List α}
    (hf : ∀ a ∈ l, ∀ s done, I s done →
      ∃ s', (∀ i, f i s a = pure s') ∧ I s' (done ++ g a)) :
    ∀ s done, I s done →
      ∃ s', (∀ i, l.foldlM (f i) s = pure s') ∧ I s' (done ++ l.flatMap g) := by
  induction l with
  | nil => exact fun s done h => ⟨s, fun _ => rfl, by simpa using h⟩
  | cons a l ih =>
    intro s done h
    obtain ⟨s₁, hs₁, h₁⟩ := hf a List.mem_cons_self s done h
    obtain ⟨s₂, hs₂, h₂⟩ := ih (fun b hb => hf b (List.mem_cons_of_mem a hb)) s₁ _ h₁
    refine ⟨s₂, fun i => ?_, ?_⟩
    · rw [List.foldlM_cons, hs₁, pure_bind, hs₂]
    · rwa [List.flatMap_cons, ← List.append_assoc]

/-- Numbering a list's elements changes nothing of what they map to. -/
theorem flatMap_zipIdx (l : List α) (g : α → List β) (i : ℕ) :
    (l.zipIdx i).flatMap (fun a => g a.1) = l.flatMap g := by
  induction l generalizing i with
  | nil => rfl
  | cons a l ih => rw [List.zipIdx_cons, List.flatMap_cons, List.flatMap_cons, ih]

end Packing
