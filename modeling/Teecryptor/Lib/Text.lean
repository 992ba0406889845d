import Teecryptor.Lib.Rust

/-!
# Searching and trimming text

`splitOnce` cuts a text at the first place a separator stands (`splitOnce_eq_some`), which is what
`str::find`, `str::contains` and the first piece of `str::split` look for. `trim` takes off the
white space of Unicode at both ends.
-/

namespace Text

open Rust

/-- The texts before and after the first `sep`. -/
def splitOnce (sep : List Char) : List Char → Option (List Char × List Char)
  | [] => if sep = [] then some ([], []) else none
  | c :: s =>
    match stripPrefix sep (c :: s) with
    | some rest => some ([], rest)
    | none => (splitOnce sep s).map fun (before, after) => (c :: before, after)

def contains (sep s : List Char) : Bool := (splitOnce sep s).isSome

/-- The first piece of `s`, cut at every `sep`. -/
def firstPiece (sep s : List Char) : List Char := ((splitOnce sep s).map (·.1)).getD s

/-- Unicode's `White_Space`. -/
def isWhiteSpace (c : Char) : Bool :=
  let n := c.toNat
  (0x9 ≤ n ∧ n ≤ 0xd) ∨ n = 0x20 ∨ n = 0x85 ∨ n = 0xa0 ∨ n = 0x1680 ∨ (0x2000 ≤ n ∧ n ≤ 0x200a)
    ∨ n = 0x2028 ∨ n = 0x2029 ∨ n = 0x202f ∨ n = 0x205f ∨ n = 0x3000

def trim (s : List Char) : List Char :=
  ((s.dropWhile isWhiteSpace).reverse.dropWhile isWhiteSpace).reverse

variable {sep s a b : List Char}

theorem stripPrefix_eq_none : stripPrefix sep s = none ↔ ∀ t, s ≠ sep ++ t := by
  constructor
  · rintro h t ht
    rw [stripPrefix_eq_some.2 ht] at h
    cases h
  · intro h
    rcases hs : stripPrefix sep s with _ | t
    · rfl
    · exact absurd (stripPrefix_eq_some.1 hs) (h t)

/-- The cut is where the separator stands first. -/
theorem splitOnce_eq_some : splitOnce sep s = some (a, b) ↔
    s = a ++ (sep ++ b) ∧ ∀ a' b', s = a' ++ (sep ++ b') → a.length ≤ a'.length := by
  induction s generalizing a with
  | nil =>
    unfold splitOnce
    split_ifs with hsep
    · subst hsep
      constructor
      · intro h
        cases h
        exact ⟨rfl, fun _ _ _ => Nat.zero_le _⟩
      · rintro ⟨h, -⟩
        obtain ⟨rfl, rfl⟩ := List.append_eq_nil_iff.1 h.symm
        rfl
    · constructor
      · intro h
        cases h
      · rintro ⟨h, -⟩
        obtain ⟨-, h⟩ := List.append_eq_nil_iff.1 h.symm
        exact absurd (List.append_eq_nil_iff.1 h).1 hsep
  | cons c s ih =>
    unfold splitOnce
    rcases hp : stripPrefix sep (c :: s) with _ | rest
    · have hne := stripPrefix_eq_none.1 hp
      simp only [Option.map_eq_some_iff, Prod.exists, Prod.mk.injEq]
      constructor
      · rintro ⟨a₁, b₁, h, rfl, rfl⟩
        obtain ⟨rfl, hfirst⟩ := ih.1 h
        refine ⟨rfl, fun a' b' h' => ?_⟩
        rcases a' with _ | ⟨c', a'⟩
        · exact absurd h' (hne b')
        · obtain ⟨-, h'⟩ := List.cons.inj h'
          have := hfirst a' b' h'
          simp only [List.length_cons]
          omega
      · rintro ⟨h, hfirst⟩
        rcases a with _ | ⟨c', a₁⟩
        · exact absurd h (hne b)
        · obtain ⟨rfl, htail⟩ := List.cons.inj h
          refine ⟨a₁, b, ih.2 ⟨htail, fun a' b' h' => ?_⟩, rfl, rfl⟩
          have := hfirst (c :: a') b' (by rw [h', List.cons_append])
          simp only [List.length_cons] at this
          omega
    · have hs := stripPrefix_eq_some.1 hp
      simp only [Option.some.injEq, Prod.mk.injEq]
      constructor
      · rintro ⟨rfl, rfl⟩
        exact ⟨hs, fun _ _ _ => Nat.zero_le _⟩
      · rintro ⟨h, hfirst⟩
        obtain rfl : a = [] := by
          have := hfirst [] rest hs
          exact List.length_eq_zero_iff.1 (Nat.le_zero.1 this)
        rw [hs] at h
        exact ⟨rfl, List.append_cancel_left h⟩

/-- Where a separator stands, the text is cut, there or before. -/
theorem splitOnce_append (a b : List Char) :
    ∃ a' b', splitOnce sep (a ++ (sep ++ b)) = some (a', b') := by
  induction a with
  | nil =>
    rcases hs : sep ++ b with _ | ⟨c, s⟩
    · obtain ⟨rfl, -⟩ := List.append_eq_nil_iff.1 hs
      exact ⟨[], [], rfl⟩
    · exact ⟨[], b, by simp only [List.nil_append, splitOnce, stripPrefix_eq_some.2 hs.symm]⟩
  | cons c a ih =>
    obtain ⟨a', b', h⟩ := ih
    rw [List.cons_append]
    unfold splitOnce
    rcases stripPrefix sep (c :: (a ++ (sep ++ b))) with _ | rest
    · exact ⟨c :: a', b', by rw [h]; rfl⟩
    · exact ⟨[], rest, rfl⟩

theorem splitOnce_cons {c : Char} (h : stripPrefix sep (c :: s) = none) :
    splitOnce sep (c :: s) = (splitOnce sep s).map fun r => (c :: r.1, r.2) := by
  rw [splitOnce, h]

/-- Text without the first character of the separator is passed over. -/
theorem splitOnce_skip {c : Char} : ∀ {p : List Char}, c ∉ p →
    splitOnce (c :: sep) (p ++ s) = (splitOnce (c :: sep) s).map fun r => (p ++ r.1, r.2)
  | [], _ => by simp
  | d :: p, h => by
    obtain ⟨hd, hp⟩ := not_or.1 (List.mem_cons.not.1 h)
    have hstrip : stripPrefix (c :: sep) (d :: (p ++ s)) = none :=
      stripPrefix_eq_none.2 fun t ht => hd (List.cons.inj ht).1.symm
    rw [List.cons_append, splitOnce_cons hstrip, splitOnce_skip hp, Option.map_map]
    rfl

theorem contains_iff : contains sep s = true ↔ sep <:+: s := by
  unfold contains
  rw [Option.isSome_iff_exists]
  constructor
  · rintro ⟨⟨a, b⟩, h⟩
    exact ⟨a, b, by rw [(splitOnce_eq_some.1 h).1, List.append_assoc]⟩
  · rintro ⟨a, b, rfl⟩
    obtain ⟨a', b', h⟩ := splitOnce_append a b
    rw [List.append_assoc]
    exact ⟨(a', b'), h⟩

end Text
