import Teecryptor.Proofs.Spellings

/-!
# When the operator's chains are all kept

`parse_permit_chains` walks the entries of `PERMIT_CHAINS_JSON` in any order and puts each into a
map by the number its key denotes. Keys of different texts can denote one number, and then the
entry walked last is the one that is served.
-/

namespace Teecryptor

open Interact Interact.Prog Bytes Rust

variable {crates : BootCrates} {vars : EnvVars} {acl : AclPolicy} {tr : Trace bootSig}

/-! ## One entry -/

/-- The key is no `u64`, or denotes a chain the policy has no TaskManager id for. -/
def Refused (acl : AclPolicy) (key : String) : Prop :=
  ∀ c, Denotes key c → acl.taskManagerId c = none

/-- What an entry whose key denotes `c` is served as. -/
def ChainEntry.pending (acl : AclPolicy) (entry : ChainEntry) (id : UInt64) : PendingChain :=
  ⟨entry.rpcUrl, (entry.timeoutMs.getD 5000).toNat, acl.addressBook, id,
    (entry.retries.getD 2).toNat⟩

/-- The chain a key denotes. -/
def keyChain (key : String) : UInt64 := UInt64.ofNat ((parseUnsigned 64 key).getD 0)

/-- An entry that is not refused, as the map has it. -/
def entryOf (acl : AclPolicy) (q : String × ChainEntry) : UInt64 × PendingChain :=
  (keyChain q.1, q.2.pending acl ((acl.taskManagerId (keyChain q.1)).getD 0))

/-- Why an entry is refused. -/
def keyRefusal (key : String) : BootError :=
  match parseUnsigned 64 key with
  | none => .permitChainId key
  | some n => .noTaskManagerId (UInt64.ofNat n)

theorem Denotes.keyChain_eq {key : String} {c : UInt64} (h : Denotes key c) : keyChain key = c := by
  rw [Denotes] at h
  rw [keyChain, h, Option.getD_some, UInt64.ofNat_toNat]

theorem not_refused {key : String} : ¬ Refused acl key
    ↔ ∃ c id, Denotes key c ∧ acl.taskManagerId c = some id := by
  simp only [Refused, not_forall, ← ne_eq, Option.ne_none_iff_exists']
  constructor
  · rintro ⟨c, hc, id, hid⟩
    exact ⟨c, id, hc, hid⟩
  · rintro ⟨c, id, hc, hid⟩
    exact ⟨c, hc, id, hid⟩

theorem pendingChains_cons {key : String} {entry : ChainEntry}
    {rest : List (String × ChainEntry)} {m : List (UInt64 × PendingChain)}
    (h : ¬ Refused acl key) : pendingChains acl ((key, entry) :: rest) m
      = pendingChains acl rest (Keyed.insert m (entryOf acl (key, entry))) := by
  obtain ⟨c, id, hc, hid⟩ := not_refused.1 h
  have hchain := hc.keyChain_eq
  rw [Denotes] at hc
  simp only [pendingChains, hc, okOr, ok_bind, UInt64.ofNat_toNat, hid]
  rw [entryOf, hchain, hid]
  rfl

theorem pendingChains_refused {key : String} {entry : ChainEntry}
    {rest : List (String × ChainEntry)} {m : List (UInt64 × PendingChain)}
    (h : Refused acl key) : pendingChains acl ((key, entry) :: rest) m = fail (keyRefusal key) := by
  rcases hn : parseUnsigned 64 key with _ | n
  · simp only [pendingChains, keyRefusal, hn]
    rfl
  · simp only [pendingChains, keyRefusal, hn, okOr, ok_bind, h _ (denotes_of_parse hn)]
    rfl

/-! ## All entries -/

/-- Where no entry is refused, the map has them all put in. -/
theorem pendingChains_eq {entries : List (String × ChainEntry)}
    (h : ∀ q ∈ entries, ¬ Refused acl q.1) (m : List (UInt64 × PendingChain)) :
    pendingChains acl entries m = .ok (Keyed.insertAll (entries.map (entryOf acl)) m) := by
  induction entries generalizing m with
  | nil => rfl
  | cons q rest ih =>
    obtain ⟨key, entry⟩ := q
    rw [pendingChains_cons (h _ List.mem_cons_self),
      ih fun q hq => h q (List.mem_cons_of_mem _ hq)]
    rfl

/-- Where one is, the error is about one that is. -/
theorem pendingChains_of_refused {entries : List (String × ChainEntry)}
    (h : ∃ q ∈ entries, Refused acl q.1) (m : List (UInt64 × PendingChain)) :
    ∃ q ∈ entries, Refused acl q.1 ∧ pendingChains acl entries m = fail (keyRefusal q.1) := by
  induction entries generalizing m with
  | nil =>
    obtain ⟨q, hq, -⟩ := h
    cases hq
  | cons q rest ih =>
    obtain ⟨key, entry⟩ := q
    by_cases hkey : Refused acl key
    · exact ⟨_, List.mem_cons_self, hkey, pendingChains_refused hkey⟩
    · have hrest : ∃ q ∈ rest, Refused acl q.1 := by
        obtain ⟨q, hq, hr⟩ := h
        rcases List.mem_cons.1 hq with rfl | hq
        · exact absurd hr hkey
        · exact ⟨q, hq, hr⟩
      obtain ⟨q, hq, hr, heq⟩ := ih hrest (Keyed.insert m (entryOf acl (key, entry)))
      exact ⟨q, List.mem_cons_of_mem _ hq, hr, by rw [pendingChains_cons hkey, heq]⟩

/-- Two keys refused alike are one key, or denote one chain. -/
theorem keyRefusal_inj {key key' : String} (h : keyRefusal key = keyRefusal key') :
    key = key' ∨ ∃ c, Denotes key c ∧ Denotes key' c := by
  unfold keyRefusal at h
  rcases hn : parseUnsigned 64 key with _ | n <;> rcases hn' : parseUnsigned 64 key' with _ | n' <;>
    simp only [hn, hn'] at h
  · cases h
    exact .inl rfl
  · cases h
  · cases h
  · injection h with hc
    refine .inr ⟨_, denotes_of_parse hn, ?_⟩
    rw [hc]
    exact denotes_of_parse hn'

theorem keyRefusal_of_denotes {key key' : String} {c : UInt64} (h : Denotes key c)
    (h' : Denotes key' c) : keyRefusal key = keyRefusal key' := by
  rw [Denotes] at h h'
  rw [keyRefusal, keyRefusal, h, h']

/-! ## Every order -/

variable {raw : String} {parsed : List (String × ChainEntry)}
  {r : Exec BootError (Option (List (UInt64 × PendingChain)))}

theorem run_parsePermitChains_nil (hraw : vars "PERMIT_CHAINS_JSON" = some raw)
    (hparsed : crates.permitChains raw = .ok []) :
    Run (parsePermitChains crates vars acl).run tr r ↔ tr = [] ∧ r = .ok none := by
  unfold parsePermitChains
  simp only [hraw, hparsed]
  exact run_exceptPure

theorem run_parsePermitChains (hraw : vars "PERMIT_CHAINS_JSON" = some raw)
    (hparsed : crates.permitChains raw = .ok parsed) (hne : parsed ≠ []) :
    Run (parsePermitChains crates vars acl).run tr r ↔ tr = [] ∧ ∃ entries,
      entries.Perm parsed ∧ r = (pendingChains acl entries []).map some := by
  have hbody : ∀ entries tr, Run (BootTask.ofExec (pendingChains acl entries []) >>= fun chains =>
      (return some chains : BootTask _)).run tr r
        ↔ tr = [] ∧ r = (pendingChains acl entries []).map some := by
    intro entries tr
    rcases pendingChains acl entries [] with e | chains
    · exact run_pure
    · exact run_pure
  have hempty : ¬ parsed.isEmpty = true := by rwa [List.isEmpty_iff]
  unfold parsePermitChains
  simp only [hraw, hparsed, mapErr]
  show Run (if parsed.isEmpty then return none else walk parsed >>= fun entries =>
    BootTask.ofExec (pendingChains acl entries []) >>= fun chains =>
      (return some chains : BootTask _)).run tr r ↔ _
  rw [if_neg hempty, walk, run_liftBind]
  constructor
  · rintro ⟨tr₁, tr₂, entries, rfl, hwalk, h⟩
    obtain ⟨rfl, hperm⟩ := run_anyOrder hwalk
    obtain ⟨rfl, hr⟩ := (hbody entries tr₂).1 h
    exact ⟨rfl, entries, hperm, hr⟩
  · rintro ⟨rfl, entries, hperm, hr⟩
    exact ⟨[], [], entries, rfl, run_anyOrder_of_perm hperm, (hbody entries []).2 ⟨rfl, hr⟩⟩

/-- Equal, two maps with the same entries taken for one. -/
def SameChains : Exec BootError (Option (List (UInt64 × PendingChain))) →
    Exec BootError (Option (List (UInt64 × PendingChain))) → Prop
  | .ok (some chains), .ok (some chains') => chains.Perm chains'
  | r, r' => r = r'

/-- Every order gives the same, and where it gives chains, there are as many as entries, each
entry's under the chain its key denotes, with the policy's id for it. -/
structure KeepsEntries (crates : BootCrates) (vars : EnvVars) (acl : AclPolicy)
    (parsed : List (String × ChainEntry)) : Prop where
  deterministic : ∀ tr r tr' r', Run (parsePermitChains crates vars acl).run tr r →
    Run (parsePermitChains crates vars acl).run tr' r' → SameChains r r'
  kept : ∀ tr chains, Run (parsePermitChains crates vars acl).run tr (.ok (some chains)) →
    chains.length = parsed.length ∧ ∀ q ∈ parsed, ∃ c id, Denotes q.1 c
      ∧ acl.taskManagerId c = some id ∧ (c, q.2.pending acl id) ∈ chains

/-- Entries that are refused are refused for one chain, and if none is refused, no two denote one
chain. -/
structure Unambiguous (acl : AclPolicy) (parsed : List (String × ChainEntry)) : Prop where
  refused : ∀ q ∈ parsed, ∀ q' ∈ parsed, Refused acl q.1 → Refused acl q'.1 →
    q = q' ∨ ∃ c, Denotes q.1 c ∧ Denotes q'.1 c
  distinct : (∀ q ∈ parsed, ¬ Refused acl q.1) → ∀ q ∈ parsed, ∀ q' ∈ parsed, ∀ c,
    Denotes q.1 c → Denotes q'.1 c → q = q'

theorem entryOf_fst {q : String × ChainEntry} {c : UInt64} (h : Denotes q.1 c) :
    (entryOf acl q).1 = c := h.keyChain_eq

theorem entryOf_eq {q : String × ChainEntry} {c id : UInt64} (h : Denotes q.1 c)
    (hid : acl.taskManagerId c = some id) : entryOf acl q = (c, q.2.pending acl id) := by
  rw [entryOf, h.keyChain_eq, hid, Option.getD_some]

/-- Some order walks a given entry first. -/
theorem exists_order {q : String × ChainEntry} (hq : q ∈ parsed) :
    ∃ rest, (q :: rest).Perm parsed := by
  obtain ⟨l₁, l₂, rfl⟩ := List.append_of_mem hq
  exact ⟨l₁ ++ l₂, List.perm_middle.symm⟩

theorem unambiguous_of_keeps (hraw : vars "PERMIT_CHAINS_JSON" = some raw)
    (hparsed : crates.permitChains raw = .ok parsed) (hnodup : (parsed.map Prod.fst).Nodup)
    (h : KeepsEntries crates vars acl parsed) : Unambiguous acl parsed where
  refused q hq q' hq' hr hr' := by
    have hrun := fun r => @run_parsePermitChains crates vars acl [] raw parsed r hraw hparsed
      (List.ne_nil_of_mem hq)
    obtain ⟨rest, hperm⟩ := exists_order hq
    obtain ⟨rest', hperm'⟩ := exists_order hq'
    have hsame := h.deterministic [] _ [] _ ((hrun _).2 ⟨rfl, _, hperm, rfl⟩)
      ((hrun _).2 ⟨rfl, _, hperm', rfl⟩)
    rw [pendingChains_refused hr, pendingChains_refused hr'] at hsame
    have heq : keyRefusal q.1 = keyRefusal q'.1 := by
      injection hsame with herr
      injection herr
    rcases keyRefusal_inj heq with hkey | hc
    · exact .inl (List.inj_on_of_nodup_map hnodup hq hq' hkey)
    · exact .inr hc
  distinct hnone q hq q' hq' c hc hc' := by
    have hrun := (@run_parsePermitChains crates vars acl [] raw parsed _ hraw hparsed
      (List.ne_nil_of_mem hq)).2 ⟨rfl, parsed, .refl _, rfl⟩
    rw [pendingChains_eq hnone] at hrun
    have hlen := (h.kept [] _ hrun).1
    rw [← List.length_map (entryOf acl), Keyed.length_insertAll_iff, List.map_map] at hlen
    refine List.inj_on_of_nodup_map hlen hq hq' ?_
    exact (entryOf_fst hc).trans (entryOf_fst hc').symm

/-- Where no entry is refused and none denotes another's chain, the map is the entries. -/
theorem pendingChains_perm (hnodup : (parsed.map Prod.fst).Nodup) (h : Unambiguous acl parsed)
    (hnone : ∀ q ∈ parsed, ¬ Refused acl q.1) {entries : List (String × ChainEntry)}
    (hperm : entries.Perm parsed) : ∃ chains, pendingChains acl entries [] = .ok chains
      ∧ chains.Perm (parsed.map (entryOf acl)) := by
  have hids : ((parsed.map (entryOf acl)).map Prod.fst).Nodup := by
    rw [List.map_map]
    refine List.Nodup.map_on (fun q hq q' hq' heq => ?_) (List.Nodup.of_map _ hnodup)
    obtain ⟨c, id, hc, -⟩ := not_refused.1 (hnone q hq)
    obtain ⟨c', id', hc', -⟩ := not_refused.1 (hnone q' hq')
    have hcc : c = c' := (entryOf_fst hc).symm.trans (heq.trans (entryOf_fst hc'))
    rw [← hcc] at hc'
    exact h.distinct hnone q hq q' hq' c hc hc'
  have hkeys : ((entries.map (entryOf acl)).map Prod.fst).Nodup :=
    ((hperm.map _).map _).nodup_iff.2 hids
  refine ⟨_, pendingChains_eq (fun q hq => hnone q (hperm.mem_iff.1 hq)) [], ?_⟩
  rw [Keyed.insertAll_of_nodup _ (by simpa using hkeys), List.append_nil]
  exact (List.reverse_perm _).trans (hperm.map _)

theorem keeps_of_unambiguous (hraw : vars "PERMIT_CHAINS_JSON" = some raw)
    (hparsed : crates.permitChains raw = .ok parsed) (hnodup : (parsed.map Prod.fst).Nodup)
    (h : Unambiguous acl parsed) : KeepsEntries crates vars acl parsed := by
  by_cases hne : parsed = []
  · subst hne
    have hrun := fun tr r => @run_parsePermitChains_nil crates vars acl tr raw r hraw hparsed
    refine ⟨fun tr r tr' r' hr hr' => ?_, fun tr chains hr => ?_⟩
    · rw [((hrun tr r).1 hr).2, ((hrun tr' r').1 hr').2]
      exact rfl
    · cases ((hrun tr _).1 hr).2
  have hrun := fun tr r => @run_parsePermitChains crates vars acl tr raw parsed r hraw hparsed hne
  by_cases hsome : ∃ q ∈ parsed, Refused acl q.1
  · have hfail : ∀ entries, entries.Perm parsed → ∃ q ∈ parsed, Refused acl q.1
        ∧ pendingChains acl entries [] = fail (keyRefusal q.1) := by
      intro entries hperm
      obtain ⟨q, hq, hr⟩ := hsome
      obtain ⟨q', hq', hr', heq⟩ := pendingChains_of_refused ⟨q, hperm.mem_iff.2 hq, hr⟩ []
      exact ⟨q', hperm.mem_iff.1 hq', hr', heq⟩
    refine ⟨fun tr r tr' r' hr hr' => ?_, fun tr chains hr => ?_⟩
    · obtain ⟨-, e, hperm, rfl⟩ := (hrun tr r).1 hr
      obtain ⟨-, e', hperm', rfl⟩ := (hrun tr' r').1 hr'
      obtain ⟨q, hq, hqr, heq⟩ := hfail e hperm
      obtain ⟨q', hq', hqr', heq'⟩ := hfail e' hperm'
      have hkey : keyRefusal q.1 = keyRefusal q'.1 := by
        rcases h.refused q hq q' hq' hqr hqr' with rfl | ⟨c, hc, hc'⟩
        · rfl
        · exact keyRefusal_of_denotes hc hc'
      rw [heq, heq', hkey]
      exact rfl
    · obtain ⟨-, e, hperm, hok⟩ := (hrun tr _).1 hr
      obtain ⟨q, -, -, heq⟩ := hfail e hperm
      rw [heq] at hok
      cases hok
  · have hnone : ∀ q ∈ parsed, ¬ Refused acl q.1 := fun q hq hr => hsome ⟨q, hq, hr⟩
    refine ⟨fun tr r tr' r' hr hr' => ?_, fun tr chains hr => ?_⟩
    · obtain ⟨-, e, hperm, rfl⟩ := (hrun tr r).1 hr
      obtain ⟨-, e', hperm', rfl⟩ := (hrun tr' r').1 hr'
      obtain ⟨l, hl, hlp⟩ := pendingChains_perm hnodup h hnone hperm
      obtain ⟨l', hl', hlp'⟩ := pendingChains_perm hnodup h hnone hperm'
      rw [hl, hl']
      exact hlp.trans hlp'.symm
    · obtain ⟨-, e, hperm, hok⟩ := (hrun tr _).1 hr
      obtain ⟨l, hl, hlp⟩ := pendingChains_perm hnodup h hnone hperm
      rw [hl] at hok
      cases hok
      refine ⟨by rw [hlp.length_eq, List.length_map], fun q hq => ?_⟩
      obtain ⟨c, id, hc, hid⟩ := not_refused.1 (hnone q hq)
      refine ⟨c, id, hc, hid, hlp.mem_iff.2 ?_⟩
      rw [← entryOf_eq hc hid]
      exact List.mem_map_of_mem hq

/-- The entries are all kept, in every order alike, if and only if no two that would be served
denote one chain and no two are refused for different reasons. -/
theorem keeps_entries_iff (hraw : vars "PERMIT_CHAINS_JSON" = some raw)
    (hparsed : crates.permitChains raw = .ok parsed) (hnodup : (parsed.map Prod.fst).Nodup) :
    KeepsEntries crates vars acl parsed ↔ Unambiguous acl parsed := by
  constructor
  · exact unambiguous_of_keeps hraw hparsed hnodup
  · exact keeps_of_unambiguous hraw hparsed hnodup

/-- A policy with two chains, and an endpoint for each. -/
def twoChainAcl : AclPolicy := ⟨cofheAddressBook, [("1", 1), ("2", 7)], none⟩

def twoChains : List (String × ChainEntry) :=
  [("1", ⟨"http://a", none, none⟩), ("+2", ⟨"http://b", none, none⟩)]

def twoChainBoot : BootCrates := { sampleBoot with permitChains := fun _ => .ok twoChains }

def twoChainVars : EnvVars := fun key =>
  [("PERMIT_CHAINS_JSON", "\x7b\"1\": \x7b\"rpc_url\": \"http://a\"\x7d, " ++
    "\"+2\": \x7b\"rpc_url\": \"http://b\"\x7d\x7d")].lookup key

/-- Both are served, in either order of the map. -/
theorem keeps_entries_iff_sample : KeepsEntries twoChainBoot twoChainVars twoChainAcl twoChains
    ∧ ∃ chains, Run (parsePermitChains twoChainBoot twoChainVars twoChainAcl).run []
      (.ok (some chains)) ∧ chains.length = 2 := by
  have hone : ∀ c, Denotes "1" c → c = 1 := fun c hc => hc.keyChain_eq.symm.trans (by decide)
  have htwo : ∀ c, Denotes "+2" c → c = 2 := fun c hc => hc.keyChain_eq.symm.trans (by decide)
  have hraw : twoChainVars "PERMIT_CHAINS_JSON" = some _ := rfl
  have hserved : ∀ q ∈ twoChains, ¬ Refused twoChainAcl q.1 := by
    intro q hq
    rcases List.mem_pair.1 hq with rfl | rfl
    · exact not_refused.2 ⟨1, 1, (by decide : parseUnsigned 64 "1" = some 1), rfl⟩
    · exact not_refused.2 ⟨2, 7, (by decide : parseUnsigned 64 "+2" = some 2), rfl⟩
  have hkeeps : KeepsEntries twoChainBoot twoChainVars twoChainAcl twoChains := by
    refine (keeps_entries_iff hraw rfl (by decide)).2
      ⟨fun q hq q' _ hr => absurd hr (hserved q hq), fun _ q hq q' hq' c hc hc' => ?_⟩
    rcases List.mem_pair.1 hq with rfl | rfl <;> rcases List.mem_pair.1 hq' with rfl | rfl
    · rfl
    · exact absurd ((hone c hc).symm.trans (htwo c hc')) (by decide)
    · exact absurd ((hone c hc').symm.trans (htwo c hc)) (by decide)
    · rfl
  have hrun : Run (parsePermitChains twoChainBoot twoChainVars twoChainAcl).run []
      (.ok (some (Keyed.insertAll (twoChains.map (entryOf twoChainAcl)) []))) :=
    (run_parsePermitChains hraw rfl (by simp [twoChains])).2
      ⟨rfl, twoChains, .refl _, by rw [pendingChains_eq hserved, Except.map]⟩
  exact ⟨hkeeps, _, hrun, (hkeeps.kept _ _ hrun).1⟩

/-- A policy with one chain. -/
def oneChainAcl : AclPolicy := ⟨cofheAddressBook, [("1", 1)], none⟩

/-- Two spellings of one chain, each with its endpoint. -/
def twoSpellings : List (String × ChainEntry) :=
  [("1", ⟨"http://a", none, none⟩), ("+1", ⟨"http://b", none, none⟩)]

def spelledBoot : BootCrates := { sampleBoot with permitChains := fun _ => .ok twoSpellings }

def spelledVars : EnvVars := fun key =>
  [("PERMIT_CHAINS_JSON", "\x7b\"1\": \x7b\"rpc_url\": \"http://a\"\x7d, " ++
    "\"+1\": \x7b\"rpc_url\": \"http://b\"\x7d\x7d")].lookup key

/-- Each order serves chain 1 through the endpoint it comes to last, and drops the other. -/
theorem two_spellings_collapse :
    Run (parsePermitChains spelledBoot spelledVars oneChainAcl).run []
        (.ok (some [(1, ⟨"http://b", 5000, cofheAddressBook, 1, 2⟩)]))
      ∧ Run (parsePermitChains spelledBoot spelledVars oneChainAcl).run []
        (.ok (some [(1, ⟨"http://a", 5000, cofheAddressBook, 1, 2⟩)]))
      ∧ (twoSpellings.map Prod.fst).Nodup
      ∧ ¬ KeepsEntries spelledBoot spelledVars oneChainAcl twoSpellings := by
  have hrun := fun r => @run_parsePermitChains spelledBoot spelledVars oneChainAcl [] _ twoSpellings
    r rfl rfl (by simp [twoSpellings])
  have hb := (hrun _).2 ⟨rfl, twoSpellings, .refl _, rfl⟩
  have ha := (hrun _).2 ⟨rfl, _, .swap _ _ _, rfl⟩
  refine ⟨hb, ha, by decide, fun hkeeps => ?_⟩
  exact absurd (hkeeps.kept [] _ hb).1 (by decide)

end Teecryptor
