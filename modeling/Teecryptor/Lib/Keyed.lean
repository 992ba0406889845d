import Mathlib.Data.List.Perm.Basic
import Mathlib.Data.List.Nodup

/-!
# Maps as lists of entries

A map is the list of its entries, with distinct keys, in no order that means anything. An entry put
in takes the place of the one its key had, so putting a list of entries in keeps them all if and
only if their keys are distinct.
-/

namespace Keyed

variable {α β : Type*} [DecidableEq α]

/-- The map with an entry put in. -/
def insert (m : List (α × β)) (q : α × β) : List (α × β) := q :: m.filter (·.1 ≠ q.1)

/-- The map with entries put in, one after the other. -/
def insertAll (l m : List (α × β)) : List (α × β) := l.foldl insert m

theorem mem_keys_insert {m : List (α × β)} {q : α × β} {a : α} :
    a ∈ (insert m q).map Prod.fst ↔ a = q.1 ∨ a ∈ m.map Prod.fst := by
  by_cases h : a = q.1
  · simp [insert, h]
  · simp [insert, h]

theorem nodup_insert {m : List (α × β)} (hm : (m.map Prod.fst).Nodup) (q : α × β) :
    ((insert m q).map Prod.fst).Nodup := by
  rw [insert, List.map_cons, List.nodup_cons]
  refine ⟨by simp, ?_⟩
  exact hm.sublist (List.filter_sublist.map _)

/-- A new key's entry comes to the others. -/
theorem insert_of_notMem {m : List (α × β)} {q : α × β} (h : q.1 ∉ m.map Prod.fst) :
    insert m q = q :: m := by
  rw [insert, List.filter_eq_self.2]
  intro p hp
  have hne : p.1 ≠ q.1 := fun heq => h (heq ▸ List.mem_map_of_mem hp)
  simpa using hne

theorem mem_keys_insertAll (l : List (α × β)) (m : List (α × β)) {a : α} :
    a ∈ (insertAll l m).map Prod.fst ↔ a ∈ l.map Prod.fst ∨ a ∈ m.map Prod.fst := by
  induction l generalizing m with
  | nil => simp [insertAll]
  | cons q l ih =>
    show a ∈ (insertAll l (insert m q)).map Prod.fst ↔ _
    rw [ih, mem_keys_insert, List.map_cons, List.mem_cons]
    tauto

theorem nodup_insertAll (l : List (α × β)) {m : List (α × β)} (hm : (m.map Prod.fst).Nodup) :
    ((insertAll l m).map Prod.fst).Nodup := by
  induction l generalizing m with
  | nil => exact hm
  | cons q l ih => exact ih (nodup_insert hm q)

theorem insertAll_of_nodup (l : List (α × β)) {m : List (α × β)}
    (h : (l.map Prod.fst ++ m.map Prod.fst).Nodup) : insertAll l m = l.reverse ++ m := by
  induction l generalizing m with
  | nil => rfl
  | cons q l ih =>
    rw [List.map_cons, List.cons_append, List.nodup_cons, List.mem_append, not_or] at h
    show insertAll l (insert m q) = _
    rw [insert_of_notMem h.1.2, ih, List.reverse_cons, List.append_assoc, List.singleton_append]
    rw [List.map_cons, List.nodup_middle, List.nodup_cons, List.mem_append, not_or]
    exact h

/-- No entry is lost if and only if the keys are distinct. -/
theorem length_insertAll_iff (l : List (α × β)) :
    (insertAll l []).length = l.length ↔ (l.map Prod.fst).Nodup := by
  constructor
  · intro h
    have hnodup : ((insertAll l []).map Prod.fst).Nodup := nodup_insertAll l (by simp)
    have hsub : (insertAll l []).map Prod.fst ⊆ l.map Prod.fst := by
      intro a ha
      simpa using (mem_keys_insertAll l []).1 ha
    have hperm := (List.subperm_of_subset hnodup hsub).perm_of_length_le (by simp [h])
    exact hperm.nodup_iff.1 hnodup
  · intro h
    rw [insertAll_of_nodup l (by simpa using h)]
    simp

/-- Looking a key up gives its entry. -/
theorem lookup_eq_some_iff_mem {l : List (α × β)} (h : (l.map Prod.fst).Nodup) {a : α} {b : β} :
    l.lookup a = some b ↔ (a, b) ∈ l := by
  induction l with
  | nil => simp
  | cons q l ih =>
    obtain ⟨a', b'⟩ := q
    rw [List.map_cons, List.nodup_cons] at h
    rw [List.lookup_cons, List.mem_cons, Prod.mk.injEq]
    by_cases hkey : a = a'
    · have hnot : (a', b) ∉ l := fun hmem => h.1 (List.mem_map.2 ⟨_, hmem, rfl⟩)
      simp [hkey, hnot, eq_comm]
    · have hne : (a == a') = false := by simpa using hkey
      simp [hkey, hne, ih h.2]

end Keyed
