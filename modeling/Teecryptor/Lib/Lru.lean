import Mathlib.Data.List.Basic
import Mathlib.Data.List.Nodup
import Mathlib.Data.Finset.Card
import Mathlib.Data.Finset.Dedup
import Mathlib.Order.Basic

/-!
# A bounded cache that forgets its least recently used key

The entries stand in order of use, the most recent first. Reading a key moves it to the front,
storing one puts it there and drops the last entry when the cache is over its capacity.
-/

/-- At least one entry fits, no key is stored twice, and no more entries are stored than fit. -/
structure Lru (K V : Type) where
  cap : ℕ
  entries : List (K × V)
  cap_pos : 0 < cap
  nodup : (entries.map Prod.fst).Nodup
  length_le : entries.length ≤ cap

namespace Lru

variable {K V : Type} [DecidableEq K]

/-- The entries other than the one of `k`. -/
def without (k : K) (l : List (K × V)) : List (K × V) := l.filter fun e => !decide (e.1 = k)

theorem without_sublist (k : K) (l : List (K × V)) : (without k l).Sublist l :=
  List.filter_sublist

theorem nodup_without (k : K) {l : List (K × V)} (h : (l.map Prod.fst).Nodup) :
    ((without k l).map Prod.fst).Nodup :=
  h.sublist ((without_sublist k l).map _)

theorem notMem_without (k : K) (l : List (K × V)) : k ∉ (without k l).map Prod.fst := by
  simp [without]

theorem length_without (k : K) : ∀ {l : List (K × V)}, k ∈ l.map Prod.fst →
    (l.map Prod.fst).Nodup → (without k l).length + 1 = l.length
  | [], h, _ => by simp at h
  | (k', v) :: l, h, hn => by
    simp only [List.map_cons, List.nodup_cons, List.mem_cons] at h hn
    by_cases hk : k' = k
    · subst hk
      have hl : without k' l = l := by
        refine List.filter_eq_self.2 fun e he => ?_
        simp only [Bool.not_eq_eq_eq_not, Bool.not_true, decide_eq_false_iff_not]
        rintro rfl
        exact hn.1 (List.mem_map_of_mem he)
      rw [show without k' ((k', v) :: l) = without k' l by simp [without], hl, List.length_cons]
    · have hm : k ∈ l.map Prod.fst := h.resolve_left (Ne.symm hk)
      rw [show without k ((k', v) :: l) = (k', v) :: without k l by simp [without, hk],
        List.length_cons, List.length_cons, length_without k hm hn.2]

/-- What the cache holds for `k`, read without counting as a use. -/
def find (c : Lru K V) (k : K) : Option V := (c.entries.find? (·.1 = k)).map Prod.snd

/-- The cache with `k` moved to the front, if it is there. -/
def touch (c : Lru K V) (k : K) : Lru K V where
  cap := c.cap
  entries := (c.entries.filter (·.1 = k)) ++ without k c.entries
  cap_pos := c.cap_pos
  nodup := by
    refine (List.Perm.nodup_iff ?_).2 c.nodup
    refine List.Perm.map _ ?_
    simpa [without] using List.filter_append_perm (fun e : K × V => decide (e.1 = k)) c.entries
  length_le := by
    have := (List.filter_append_perm (fun e : K × V => decide (e.1 = k)) c.entries).length_eq
    simp only [without, this]
    exact c.length_le

/-- Read `k`, as a use of it. -/
def get (c : Lru K V) (k : K) : Option V × Lru K V := (c.find k, c.touch k)

/-- Store `v` for `k`, dropping the least recently used entry if the cache is full of others. -/
def put (c : Lru K V) (k : K) (v : V) : Lru K V where
  cap := c.cap
  entries := ((k, v) :: without k c.entries).take c.cap
  cap_pos := c.cap_pos
  nodup := by
    have : (((k, v) :: without k c.entries).map Prod.fst).Nodup := by
      simp only [List.map_cons, List.nodup_cons]
      exact ⟨notMem_without k _, nodup_without k c.nodup⟩
    exact this.sublist ((List.take_sublist _ _).map _)
  length_le := List.length_take_le _ _

/-- Remove `k`. -/
def pop (c : Lru K V) (k : K) : Lru K V where
  cap := c.cap
  entries := without k c.entries
  cap_pos := c.cap_pos
  nodup := nodup_without k c.nodup
  length_le := Nat.le_trans (without_sublist k _).length_le c.length_le

def empty (cap : ℕ) (h : 0 < cap) : Lru K V := ⟨cap, [], h, by simp, by simp⟩

/-- `k` can be stored without dropping another key. -/
def HasRoom (c : Lru K V) (k : K) : Prop := (c.find k).isSome ∨ c.entries.length < c.cap

instance (c : Lru K V) (k : K) : Decidable (c.HasRoom k) := inferInstanceAs (Decidable (_ ∨ _))

/-- The entry that storing `k` drops: the least recently used one, if there is no room. -/
def dropped (c : Lru K V) (k : K) : Option (K × V) :=
  if c.HasRoom k then none else c.entries.getLast?

/-! ## What the operations leave to be found -/

theorem find?_of_mem {k : K} {v : V} : ∀ {l : List (K × V)}, (l.map Prod.fst).Nodup →
    (k, v) ∈ l → l.find? (·.1 = k) = some (k, v)
  | [], _, h => by simp at h
  | (k', v') :: l, hn, h => by
    simp only [List.map_cons, List.nodup_cons] at hn
    by_cases hk : k' = k
    · subst hk
      rcases List.mem_cons.1 h with h | h
      · simp [h]
      · exact absurd (List.mem_map_of_mem h) hn.1
    · rcases List.mem_cons.1 h with h | h
      · simp only [Prod.mk.injEq] at h
        exact absurd h.1.symm hk
      · simp [hk, find?_of_mem hn.2 h]

theorem find_eq_some {c : Lru K V} {k : K} {v : V} : c.find k = some v ↔ (k, v) ∈ c.entries := by
  constructor
  · intro h
    simp only [find, Option.map_eq_some_iff] at h
    obtain ⟨e, he, rfl⟩ := h
    have hk := List.find?_some he
    simp only [decide_eq_true_eq] at hk
    subst hk
    exact List.mem_of_find?_eq_some he
  · intro h
    simp [find, find?_of_mem c.nodup h]

theorem find_eq_none {c : Lru K V} {k : K} : c.find k = none ↔ k ∉ c.entries.map Prod.fst := by
  rw [Option.eq_none_iff_forall_ne_some]
  simp only [ne_eq, find_eq_some, List.mem_map, not_exists, not_and, Prod.forall]
  constructor
  · intro h k' v hm hk
    subst hk
    exact h v hm
  · intro h v hm
    exact h k v hm rfl

theorem find_of_nil {c : Lru K V} (h : c.entries = []) (k : K) : c.find k = none := by
  rw [find_eq_none, h]
  simp

theorem find_ext {c c' : Lru K V} {k : K} (h : ∀ v, (k, v) ∈ c.entries ↔ (k, v) ∈ c'.entries) :
    c.find k = c'.find k := by
  ext v
  simpa [find_eq_some] using h v

@[simp] theorem find_touch (c : Lru K V) (k k' : K) : (c.touch k).find k' = c.find k' := by
  refine find_ext fun v => ?_
  simp only [touch, without, List.mem_append, List.mem_filter,
    Bool.not_eq_eq_eq_not, Bool.not_true, decide_eq_true_eq, decide_eq_false_iff_not]
  tauto

theorem length_touch (c : Lru K V) (k : K) : (c.touch k).entries.length = c.entries.length :=
  (List.filter_append_perm (fun e : K × V => decide (e.1 = k)) c.entries).length_eq

/-- Reading a key that is not there changes nothing. -/
theorem touch_of_find_none {c : Lru K V} {k : K} (h : c.find k = none) : c.touch k = c := by
  have hk : ∀ e ∈ c.entries, e.1 ≠ k := fun e he hk => find_eq_none.1 h (hk ▸ List.mem_map_of_mem he)
  have hnone : c.entries.filter (·.1 = k) = [] :=
    List.filter_eq_nil_iff.2 fun e he => by simpa using hk e he
  have hall : without k c.entries = c.entries :=
    List.filter_eq_self.2 fun e he => by simpa using hk e he
  cases c
  simp only [touch, mk.injEq, true_and]
  simp only at hnone hall
  rw [hnone, hall, List.nil_append]

@[simp] theorem find_pop_self (c : Lru K V) (k : K) : (c.pop k).find k = none :=
  find_eq_none.2 (notMem_without k _)

theorem find_pop_of_ne (c : Lru K V) {k k' : K} (h : k' ≠ k) : (c.pop k).find k' = c.find k' := by
  refine find_ext fun v => ?_
  simp [pop, without, h]

@[simp] theorem find_put_self (c : Lru K V) (k : K) (v : V) : (c.put k v).find k = some v := by
  rw [find_eq_some]
  obtain ⟨n, hn⟩ := Nat.exists_eq_succ_of_ne_zero (Nat.ne_of_gt c.cap_pos)
  simp [put, hn]

/-- Storing `k` adds no other key and changes no other value. -/
theorem find_of_find_put {c : Lru K V} {k k' : K} {v w : V} (h : k' ≠ k)
    (hf : (c.put k v).find k' = some w) : c.find k' = some w := by
  rw [find_eq_some] at hf ⊢
  have := List.mem_of_mem_take hf
  simp only [List.mem_cons, Prod.mk.injEq, h, false_and, false_or] at this
  exact (without_sublist k _).subset this

/-- Storing a key there is room for drops none. -/
theorem find_put_of_hasRoom {c : Lru K V} {k k' : K} (h : k' ≠ k) (hr : c.HasRoom k) (v : V) :
    (c.put k v).find k' = c.find k' := by
  have hlen : ((k, v) :: without k c.entries).length ≤ c.cap := by
    rcases hr with hr | hr
    · obtain ⟨w, hw⟩ := Option.isSome_iff_exists.1 hr
      have hm : k ∈ c.entries.map Prod.fst := List.mem_map_of_mem (find_eq_some.1 hw)
      have := length_without k hm c.nodup
      simp only [List.length_cons]
      exact this.trans_le c.length_le
    · have := (without_sublist k c.entries).length_le
      simp only [List.length_cons]
      omega
  refine find_ext fun w => ?_
  simp only [put]
  rw [List.take_of_length_le hlen]
  simp [without, h]

theorem entries_put_of_not_hasRoom {c : Lru K V} {k : K} (hr : ¬ c.HasRoom k) (v : V) :
    (c.put k v).entries = (k, v) :: c.entries.dropLast := by
  simp only [HasRoom, not_or, Bool.not_eq_true, Option.isSome_eq_false_iff,
    Option.isNone_iff_eq_none] at hr
  have hkeep : without k c.entries = c.entries := by
    refine List.filter_eq_self.2 fun e he => ?_
    simp only [Bool.not_eq_eq_eq_not, Bool.not_true, decide_eq_false_iff_not]
    rintro rfl
    exact find_eq_none.1 hr.1 (List.mem_map_of_mem he)
  have hcap : c.cap = c.entries.length - 1 + 1 := by
    have := c.cap_pos
    have := c.length_le
    omega
  simp only [put, hkeep]
  rw [hcap, List.take_succ_cons, List.dropLast_eq_take]

/-- Storing `k` changes no other key than the one of the entry it drops. -/
theorem find_put_of_ne_dropped {c : Lru K V} {k k' : K} (h : k' ≠ k)
    (hd : ∀ e, c.dropped k = some e → e.1 ≠ k') (v : V) : (c.put k v).find k' = c.find k' := by
  by_cases hr : c.HasRoom k
  · exact find_put_of_hasRoom h hr v
  refine find_ext fun w => ?_
  rw [entries_put_of_not_hasRoom hr, List.mem_cons, Prod.mk.injEq]
  constructor
  · rintro (hk | hm)
    · exact absurd hk.1 h
    · exact (List.dropLast_sublist _).subset hm
  · intro hm
    have hne : c.entries ≠ [] := List.ne_nil_of_mem hm
    rw [← List.dropLast_append_getLast hne, List.mem_append, List.mem_singleton] at hm
    rcases hm with hm | hm
    · exact .inr hm
    · have hdrop : c.dropped k = some (k', w) := by
        rw [dropped, if_neg hr, hm, List.getLast?_eq_some_getLast hne]
      exact absurd rfl (hd _ hdrop)

/-- The entry that is dropped was there, and is not any more. -/
theorem find_dropped {c : Lru K V} {k : K} {e : K × V} (h : c.dropped k = some e) :
    c.find e.1 = some e.2 ∧ ∀ v, (c.put k v).find e.1 = none := by
  unfold dropped at h
  split_ifs at h with hr
  have hne : c.entries ≠ [] := by
    rintro hnil
    simp [hnil] at h
  obtain rfl : c.entries.getLast hne = e := by
    rw [List.getLast?_eq_some_getLast hne] at h
    exact Option.some.inj h
  refine ⟨find_eq_some.2 (List.getLast_mem hne), fun v => ?_⟩
  -- keys are stored once, so the last entry's is not among the others
  have hnodup := c.nodup
  rw [← List.dropLast_append_getLast hne, List.map_append, List.nodup_append] at hnodup
  have hkey : (c.entries.getLast hne).1 ≠ k := by
    rintro rfl
    exact hr (.inl (by rw [find_eq_some.2 (List.getLast_mem hne)]; rfl))
  rw [find_eq_none, entries_put_of_not_hasRoom hr, List.map_cons, List.mem_cons, not_or]
  exact ⟨hkey, fun hm => hnodup.2.2 _ hm _ (by simp) rfl⟩

/-! ## Keys that are used again are kept -/

/-- A use of the cache: a key is stored, or one that is there is read. -/
inductive Use (K V : Type)
  | put (k : K) (v : V)
  | hit (k : K)

def Use.key : Use K V → K
  | put k _ => k
  | hit k => k

def use (c : Lru K V) : Use K V → Lru K V
  | .put k v => c.put k v
  | .hit k => c.touch k

def uses (c : Lru K V) (us : List (Use K V)) : Lru K V := us.foldl use c

theorem uses_append (c : Lru K V) (us us' : List (Use K V)) :
    c.uses (us ++ us') = (c.uses us).uses us' := List.foldl_append

@[simp] theorem cap_use (c : Lru K V) (u : Use K V) : (c.use u).cap = c.cap := by
  cases u <;> rfl

@[simp] theorem cap_uses (c : Lru K V) (us : List (Use K V)) : (c.uses us).cap = c.cap := by
  induction us generalizing c with
  | nil => rfl
  | cons u us ih => exact (ih _).trans (cap_use c u)

/-- `k` is stored, and the keys that were used since it was are among `U`. -/
def Recent (c : Lru K V) (k : K) (U : Finset K) : Prop :=
  ∃ l₁ v l₂, c.entries = l₁ ++ (k, v) :: l₂ ∧ ∀ e ∈ l₁, e.1 ∈ U

theorem Recent.isSome {c : Lru K V} {k : K} {U : Finset K} (h : c.Recent k U) :
    (c.find k).isSome := by
  obtain ⟨l₁, v, l₂, he, -⟩ := h
  rw [(find_eq_some (v := v)).2 (by simp [he])]
  rfl

omit [DecidableEq K] in
theorem Recent.mono {c : Lru K V} {k : K} {U U' : Finset K} (h : c.Recent k U) (hs : U ⊆ U') :
    c.Recent k U' := by
  obtain ⟨l₁, v, l₂, he, hU⟩ := h
  exact ⟨l₁, v, l₂, he, fun e hm => hs (hU e hm)⟩

theorem recent_put (c : Lru K V) (k : K) (v : V) : (c.put k v).Recent k ∅ := by
  obtain ⟨n, hn⟩ := Nat.exists_eq_succ_of_ne_zero (Nat.ne_of_gt c.cap_pos)
  refine ⟨[], v, (without k c.entries).take n, ?_, by simp⟩
  simp [put, hn]

theorem recent_touch {c : Lru K V} {k : K} (h : (c.find k).isSome) : (c.touch k).Recent k ∅ := by
  obtain ⟨v, hv⟩ := Option.isSome_iff_exists.1 h
  obtain ⟨l₁, l₂, he⟩ := List.append_of_mem (find_eq_some.1 hv)
  refine ⟨[], v, l₁.filter (·.1 = k) ++ l₂.filter (·.1 = k) ++ without k c.entries, ?_, by simp⟩
  -- no other entry has the key
  have hnodup := c.nodup
  rw [he, List.map_append, List.nodup_append, List.map_cons, List.nodup_cons] at hnodup
  have hnone : l₁.filter (·.1 = k) = [] := by
    refine List.filter_eq_nil_iff.2 fun e hm => ?_
    simp only [decide_eq_true_eq]
    exact hnodup.2.2 _ (List.mem_map_of_mem hm) _ (by simp)
  simp [touch, he, hnone]

theorem without_append (k : K) (l₁ l₂ : List (K × V)) :
    without k (l₁ ++ l₂) = without k l₁ ++ without k l₂ := List.filter_append _ _

theorem without_cons_of_ne {k k' : K} (h : k ≠ k') (v : V) (l : List (K × V)) :
    without k' ((k, v) :: l) = (k, v) :: without k' l := by
  simp [without, h]

/-- Reading another key puts that one before `k`. -/
theorem Recent.touch_of_ne {c : Lru K V} {k k' : K} {U : Finset K} (h : c.Recent k U)
    (hk : k ≠ k') : (c.touch k').Recent k (insert k' U) := by
  obtain ⟨l₁, v, l₂, he, hU⟩ := h
  refine ⟨c.entries.filter (·.1 = k') ++ without k' l₁, v, without k' l₂, ?_, ?_⟩
  · have hsplit : without k' c.entries = without k' l₁ ++ (k, v) :: without k' l₂ := by
      rw [he, without_append, without_cons_of_ne hk]
    simp only [touch, hsplit, List.append_assoc]
  · intro e hm
    rcases List.mem_append.1 hm with hm | hm
    · have hkey : e.1 = k' := by simpa using (List.mem_filter.1 hm).2
      simp [hkey]
    · exact Finset.mem_insert_of_mem (hU e ((without_sublist k' l₁).subset hm))

/-- Storing another key puts it before `k`, which stays if few enough keys are before it. -/
theorem Recent.put_of_ne {c : Lru K V} {k k' : K} {U : Finset K} (h : c.Recent k U) (hk : k ≠ k')
    (hcard : (insert k' U).card < c.cap) (w : V) : (c.put k' w).Recent k (insert k' U) := by
  obtain ⟨l₁, v, l₂, he, hU⟩ := h
  have hsplit : without k' c.entries = without k' l₁ ++ (k, v) :: without k' l₂ := by
    rw [he, without_append, without_cons_of_ne hk]
  have hbefore : ∀ e ∈ (k', w) :: without k' l₁, e.1 ∈ insert k' U := by
    intro e hm
    rcases List.mem_cons.1 hm with rfl | hm
    · exact Finset.mem_insert_self _ _
    · exact Finset.mem_insert_of_mem (hU e ((without_sublist k' l₁).subset hm))
  have hlen : ((k', w) :: without k' l₁).length < c.cap := by
    have hnodup : (((k', w) :: without k' l₁).map Prod.fst).Nodup := by
      refine List.nodup_cons.2 ⟨notMem_without k' l₁, nodup_without k' ?_⟩
      have := c.nodup
      rw [he, List.map_append] at this
      exact (List.nodup_append.1 this).1
    have hsub : (((k', w) :: without k' l₁).map Prod.fst).toFinset ⊆ insert k' U := by
      intro x hx
      obtain ⟨e, hm, rfl⟩ := List.mem_map.1 (List.mem_toFinset.1 hx)
      exact hbefore e hm
    have hle := Finset.card_le_card hsub
    rw [List.toFinset_card_of_nodup hnodup, List.length_map] at hle
    omega
  obtain ⟨n, hn⟩ : ∃ n, c.cap = ((k', w) :: without k' l₁).length + (n + 1) :=
    ⟨c.cap - ((k', w) :: without k' l₁).length - 1, by omega⟩
  refine ⟨(k', w) :: without k' l₁, v, (without k' l₂).take n, ?_, hbefore⟩
  simp only [put, hsplit]
  rw [← List.cons_append, hn, List.take_length_add_append, List.take_succ_cons]

theorem Recent.use_self {c : Lru K V} {u : Use K V} {U : Finset K} (h : c.Recent u.key U) :
    (c.use u).Recent u.key ∅ := by
  cases u with
  | put k v => exact recent_put c k v
  | hit k => exact recent_touch h.isSome

/-- A key is kept as long as fewer other keys were used since than fit. -/
theorem Recent.uses {k : K} : ∀ (us : List (Use K V)) {c : Lru K V} {U : Finset K},
    c.Recent k U → (U ∪ (us.map Use.key).toFinset.erase k).card < c.cap →
      (c.uses us).Recent k (U ∪ (us.map Use.key).toFinset.erase k)
  | [], c, U, h, _ => h.mono (by simp)
  | u :: us, c, U, h, hcard => by
    have hrest : ∀ U', U' ⊆ U ∪ ((u :: us).map Use.key).toFinset.erase k →
        (c.use u).Recent k U' → (c.uses (u :: us)).Recent k
          (U ∪ ((u :: us).map Use.key).toFinset.erase k) := by
      intro U' hU' hr
      have hsub : U' ∪ (us.map Use.key).toFinset.erase k
          ⊆ U ∪ ((u :: us).map Use.key).toFinset.erase k := by
        refine Finset.union_subset hU' fun x hx => Finset.mem_union_right _ ?_
        simp only [Finset.mem_erase, List.mem_toFinset, List.map_cons, List.mem_cons] at hx ⊢
        exact ⟨hx.1, .inr hx.2⟩
      refine (Recent.uses us hr ?_).mono hsub
      rw [cap_use]
      exact (Finset.card_le_card hsub).trans_lt hcard
    by_cases hk : u.key = k
    · subst hk
      exact hrest ∅ (Finset.empty_subset _) h.use_self
    · have hins : insert u.key U ⊆ U ∪ ((u :: us).map Use.key).toFinset.erase k := by
        refine Finset.insert_subset (Finset.mem_union_right _ ?_) Finset.subset_union_left
        simp [hk]
      refine hrest _ hins ?_
      cases u with
      | put k' w =>
        exact h.put_of_ne (Ne.symm hk) ((Finset.card_le_card hins).trans_lt hcard) w
      | hit k' => exact h.touch_of_ne (Ne.symm hk)

end Lru
