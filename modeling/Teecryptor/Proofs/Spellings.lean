import Teecryptor.Lib.Keyed
import Teecryptor.Proofs.AcpWire
import Teecryptor.Proofs.Boot

/-!
# Versions and chain ids as text

A version of the commitment registry has one accepted spelling (`version_spelling`). A chain id has
several: the checks of `main.rs` and `env_policy.rs` take every text that `u64` parses, and the
lookup in the policy takes one.
-/

namespace Teecryptor

open Interact Interact.Prog Bytes Rust

/-! ## The version -/

/-- Digits without an uppercase one are as their bytes are encoded. -/
theorem hexEncode_of_lower {digits : List Char} {bytes : List UInt8}
    (h : hexDecode digits = .ok bytes) (hlower : ¬ digits.any Char.isUpper) :
    hexEncode bytes = digits := by
  obtain ⟨-, -, hencode⟩ := hexDecode_eq_ok h
  rw [hencode]
  refine (List.map_congr_left fun c hc => ?_).trans (List.map_id digits)
  have hc' : ¬ c.isUpper := fun hup => hlower (List.any_eq_true.2 ⟨c, hc, hup⟩)
  unfold Char.isUpper at hc'
  unfold Char.toLower
  rw [dif_neg (by simpa using hc')]
  rfl

theorem parseVersion_eq_ok {s : String} {v : FixedBytes 32} :
    parseVersion s = .ok v ↔ s = hexText v := by
  constructor
  · intro h
    unfold parseVersion at h
    split at h
    · cases h
    next digits hdigits =>
      split_ifs at h with hlen hupper
      · cases h
      · cases h
      split at h
      · cases h
      next bytes hbytes =>
        split_ifs at h with hlen'
        swap
        · cases h
        cases h
        rw [hexText, hexEncode_of_lower hbytes hupper]
        exact String.toList_injective (by simpa using stripPrefix_eq_some.1 hdigits)
  · rintro rfl
    have hstrip : stripPrefix ['0', 'x'] (hexText v).toList = some (hexEncode v.1) := by
      simp [hexText, stripPrefix]
    have hlen : utf8Len (hexEncode v.1) = versionHexDigits := by
      rw [utf8Len_of_all (all_hexEncode _), length_hexEncode, v.2]
      rfl
    have hupper : (hexEncode v.1).any Char.isUpper = false := by
      rw [List.any_eq_false]
      intro c hc
      obtain ⟨x, hx, rfl⟩ := mem_hexEncode hc
      rw [isUpper_digitChar hx]
      simp
    unfold parseVersion
    simp only [hstrip, hlen, ne_eq, not_true_eq_false, if_false, hupper, Bool.false_eq_true,
      hexDecode_hexEncode, dif_pos v.2]

/-- A version has one accepted spelling, `0x` and its 64 lowercase digits, and every other text is
an error, never a panic. -/
theorem version_spelling :
    (∀ s v, parseVersion s = .ok v ↔ s = hexText v)
    ∧ (∀ s s' v, parseVersion s = .ok v → parseVersion s' = .ok v → s = s')
    ∧ (∀ v, ∃! s, parseVersion s = .ok v)
    ∧ ∀ s, (∀ v : FixedBytes 32, s ≠ hexText v) → ∃ e, parseVersion s = .error (.err e) := by
  refine ⟨fun s v => parseVersion_eq_ok, fun s s' v h h' => ?_, fun v => ?_, fun s hs => ?_⟩
  · rw [parseVersion_eq_ok.1 h, parseVersion_eq_ok.1 h']
  · exact ⟨hexText v, parseVersion_eq_ok.2 rfl, fun s h => parseVersion_eq_ok.1 h⟩
  · rcases h : parseVersion s with (e | p) | v
    · exact ⟨e, rfl⟩
    · exact absurd h (parseVersion_noPanic s p)
    · exact absurd (parseVersion_eq_ok.1 h) (hs v)

/-! ## The chain ids of a policy -/

/-- `u64` reads the key as the chain's id. -/
def Denotes (key : String) (c : UInt64) : Prop := parseUnsigned 64 key = some c.toNat

/-- A chain id's own text: its decimal digits, with no sign and no zeros before them. -/
def chainText (c : UInt64) : String := toString c.toNat

theorem denotes_chainText (c : UInt64) : Denotes (chainText c) c :=
  parseUnsigned_toString c.toNat_lt

theorem Denotes.unique {key : String} {c c' : UInt64} (h : Denotes key c) (h' : Denotes key c') :
    c = c' := UInt64.toNat_inj.1 (Option.some.inj (h.symm.trans h'))

theorem denotes_of_parse {key : String} {n : ℕ} (h : parseUnsigned 64 key = some n) :
    Denotes key (UInt64.ofNat n) := by
  rw [Denotes, UInt64.toNat_ofNat_of_lt' (parseUnsigned_lt h)]
  exact h

theorem checkChainIds_ok {env : String} {ids : List (String × UInt64)} {u : Unit}
    (h : EnvPolicy.checkChainIds env ids = .ok u) : ∀ q ∈ ids, ∃ c, Denotes q.1 c := by
  induction ids with
  | nil => simp
  | cons q rest ih =>
    obtain ⟨key, id⟩ := q
    obtain ⟨n, hn, h⟩ := bind_eq_ok.1 h
    intro q hq
    rcases List.mem_cons.1 hq with rfl | hq
    · exact ⟨_, denotes_of_parse (okOr_eq_ok.1 hn)⟩
    · exact ih h q hq

/-- `toml` reads a table into a map: its keys are distinct. -/
def TomlParser.DistinctKeys (toml : TomlParser) : Prop :=
  ∀ raw doc, toml raw = .ok doc → (doc.taskManagerIds.map Prod.fst).Nodup

/-- The lookup finds the entries whose key denotes the chain, so every entry is found, and each
chain has one entry at most. -/
structure AclPolicy.Alive (acl : AclPolicy) : Prop where
  lookup : ∀ c id, acl.taskManagerId c = some id
    ↔ ∃ key, (key, id) ∈ acl.taskManagerIds ∧ Denotes key c
  reachable : ∀ q ∈ acl.taskManagerIds, ∃ c, Denotes q.1 c ∧ acl.taskManagerId c = some q.2
  distinct : ∀ q ∈ acl.taskManagerIds, ∀ q' ∈ acl.taskManagerIds, ∀ c, Denotes q.1 c →
    Denotes q'.1 c → q = q'

/-- The lookup compares with the chain id's own text. -/
theorem taskManagerId_eq_some {acl : AclPolicy} (hdefault : acl.defaultTaskManagerId = none)
    (hkeys : (acl.taskManagerIds.map Prod.fst).Nodup) {c id : UInt64} :
    acl.taskManagerId c = some id ↔ (chainText c, id) ∈ acl.taskManagerIds := by
  rw [AclPolicy.taskManagerId, hdefault, Option.or_none]
  exact Keyed.lookup_eq_some_iff_mem hkeys

/-- An accepted policy has no dead entries if and only if each of its keys is a chain id's own
text. -/
theorem policy_alive_iff {toml : TomlParser} (htoml : toml.DistinctKeys) {raw env : String}
    {policy : EnvPolicy} (h : EnvPolicy.parse toml raw env = .ok policy) :
    policy.acl.Alive ↔ ∀ q ∈ policy.acl.taskManagerIds, ∃ c, q.1 = chainText c := by
  have hdefault := (EnvPolicy.valid_parse h).noDefault
  unfold EnvPolicy.parse at h
  obtain ⟨doc, hdoc, h⟩ := bind_eq_ok.1 h
  obtain ⟨-, -, h⟩ := bind_eq_ok.1 h
  obtain ⟨_, hids, h⟩ := bind_eq_ok.1 h
  obtain ⟨-, -, h⟩ := bind_eq_ok.1 h
  cases h
  have hkeys := htoml raw doc (mapErr_eq_ok.1 hdoc)
  have hparse := checkChainIds_ok hids
  have hlookup := fun c id => @taskManagerId_eq_some _ hdefault hkeys c id
  constructor
  · intro halive q hq
    obtain ⟨c, hc, hq'⟩ := halive.reachable q hq
    have heq := halive.distinct q hq _ ((hlookup c q.2).1 hq') c hc (denotes_chainText c)
    exact ⟨c, by rw [heq]⟩
  · intro hcanon
    have hown : ∀ q ∈ doc.taskManagerIds, ∀ c, Denotes q.1 c → q.1 = chainText c := by
      intro q hq c hc
      obtain ⟨c', hc'⟩ := hcanon q hq
      rw [hc'] at hc ⊢
      rw [(denotes_chainText c').unique hc]
    refine ⟨fun c id => ?_, fun q hq => ?_, fun q hq q' hq' c hc hc' => ?_⟩
    · rw [hlookup]
      constructor
      · exact fun hmem => ⟨_, hmem, denotes_chainText c⟩
      · rintro ⟨key, hmem, hc⟩
        rwa [← hown _ hmem c hc]
    · obtain ⟨c, hc⟩ := hparse q hq
      refine ⟨c, hc, (hlookup c q.2).2 ?_⟩
      rw [← hown q hq c hc]
      exact hq
    · have hkey : q.1 = q'.1 := (hown q hq c hc).trans (hown q' hq' c hc').symm
      exact List.inj_on_of_nodup_map hkeys hq hq' hkey

theorem policy_alive_iff_sample : (EnvPolicy.ofDocument sampleDocument).acl.Alive := by
  have htoml : TomlParser.DistinctKeys fun _ => .ok sampleDocument := by
    intro raw doc h
    cases h
    decide
  have hparse : EnvPolicy.parse (fun _ => .ok sampleDocument) samplePolicy "mainnet"
      = .ok (.ofDocument sampleDocument) := rfl
  rw [policy_alive_iff htoml hparse]
  intro q hq
  rcases List.mem_pair.1 hq with rfl | rfl
  · exact ⟨1, rfl⟩
  · exact ⟨42161, rfl⟩

/-- A policy with the key `01`. -/
def paddedPolicy : String :=
  "require_permit = true\nenable_commitment_verification = false\nmetrics_push = false\n\n" ++
  "[acl]\ntask_manager_ids = \x7b 01 = 1 \x7d\n"

def paddedDocument : PolicyDocument := ⟨true, false, none, false, [("01", 1)]⟩

theorem padded_key_dead :
    EnvPolicy.parse (fun _ => .ok paddedDocument) paddedPolicy "mainnet"
        = .ok (.ofDocument paddedDocument)
      ∧ Denotes "01" 1 ∧ (EnvPolicy.ofDocument paddedDocument).acl.taskManagerId 1 = none
      ∧ ¬ (EnvPolicy.ofDocument paddedDocument).acl.Alive := by
  have hone : Denotes "01" 1 := rfl
  have hnone : (EnvPolicy.ofDocument paddedDocument).acl.taskManagerId 1 = none := rfl
  refine ⟨rfl, hone, hnone, fun halive => ?_⟩
  obtain ⟨c, hc, hsome⟩ := halive.reachable ("01", 1) (List.mem_singleton_self _)
  rw [hc.unique hone, hnone] at hsome
  cases hsome

end Teecryptor
