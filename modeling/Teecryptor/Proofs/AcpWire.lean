import Teecryptor.Acp

/-!
# The ACP's wire conversion

`ACP::try_from` returns on the ACPs whose arrays keep to the limit and whose strings are hex of
their field's width, and then each field is the number its digits denote. On every other ACP it
fails with its own error, whatever characters the strings have.
-/

namespace Teecryptor

open Bytes Rust

/-! ## The strings -/

/-- A string without one `0x` it starts with. -/
def unprefixed (s : String) : List Char := (stripPrefix ['0', 'x'] s.toList).getD s.toList

/-- What alloy takes for an address: 40 hex digits after an optional `0x`, for the number they
denote. -/
def ReadsAddresses (parse : AddressParser) : Prop :=
  ∀ s a, parse s = .ok a ↔ (unprefixed s).length = 40 ∧ (unprefixed s).all isHexDigit
    ∧ a = .ofNat 20 (hexNat (unprefixed s))

/-- The empty string, `0x`, or an address. -/
def IsAddress (s : String) : Prop :=
  unprefixed s = [] ∨ (unprefixed s).length = 40 ∧ (unprefixed s).all isHexDigit

/-- At most 64 hex digits after an optional `0x`. -/
def IsBytes32 (s : String) : Prop := (unprefixed s).length ≤ 64 ∧ (unprefixed s).all isHexDigit

/-- The number a string's digits denote, on `n` big-endian bytes. -/
def fieldOf (n : ℕ) (s : String) : FixedBytes n := .ofNat n (hexNat (unprefixed s))

theorem fieldOf_nil {n : ℕ} {s : String} (h : unprefixed s = []) : fieldOf n s = .zero n := by
  have hzero : ∀ w, toBe w 0 = List.replicate w 0 := by
    intro w
    induction w with
    | zero => rfl
    | succ w ih =>
      rw [toBe, Nat.zero_div, ih, List.replicate_succ']
      rfl
  apply Subtype.ext
  rw [fieldOf, h]
  exact hzero n

/-- Nothing of the number is lost where it has at most two digits a byte. -/
theorem ofBe_fieldOf {n : ℕ} {s : String} (h : (unprefixed s).length ≤ 2 * n) :
    ofBe (fieldOf n s).1 = hexNat (unprefixed s) := by
  have hlt : hexNat (unprefixed s) < 256 ^ n := by
    calc hexNat (unprefixed s) < 16 ^ (unprefixed s).length := hexNat_lt _
      _ ≤ 16 ^ (2 * n) := Nat.pow_le_pow_right (by omega) h
      _ = 256 ^ n := by rw [pow_mul, show 16 ^ 2 = 256 by rfl]
  simp only [fieldOf, FixedBytes.ofNat, ofBe_toBe, Nat.mod_eq_of_lt hlt]

/-! ## One field -/

theorem parseAddr_returns {parse : AddressParser} (hparse : ReadsAddresses parse)
    (label s : String) : ReturnsIff (parseAddr parse label s) (IsAddress s) (fieldOf 20 s) := by
  by_cases hnil : unprefixed s = []
  · have heq : parseAddr parse label s = .ok (.zero 20) := by
      simp only [parseAddr]
      exact if_pos hnil
    rw [heq, ← fieldOf_nil hnil]
    exact (ReturnsIff.of_ok _).congr (by simp [IsAddress, hnil])
  refine ⟨fun h => ?_, fun h => ?_⟩
  · obtain ⟨hlen, hall⟩ := h.resolve_left hnil
    have hp := (hparse s (fieldOf 20 s)).2 ⟨hlen, hall, rfl⟩
    simp only [parseAddr, hp]
    exact if_neg hnil
  · rcases hp : parse s with e | a
    · simp only [parseAddr, hp]
      exact ⟨_, if_neg hnil⟩
    · obtain ⟨hlen, hall, -⟩ := (hparse s a).1 hp
      exact absurd (.inr ⟨hlen, hall⟩) h

/-- `parse_b32`, by its three branches. -/
theorem parseB32_eq (label s : String) : parseB32 label s =
    if unprefixed s = [] ∨ unprefixed s = ['0'] then .ok (.zero 32)
    else if utf8Len (unprefixed s) > 64 then fail (.malformed
      s!"{label}: expected at most 32 bytes, got {utf8Len (unprefixed s)} hex chars")
    else match hexDecode (padLeft0 64 (unprefixed s)) with
      | .error e => fail (.malformed s!"{label} hex: {e}")
      | .ok bytes => fromSlice 32 bytes := by
  simp only [parseB32, fail, error_bind]
  rfl

theorem parseB32_returns (label s : String) :
    ReturnsIff (parseB32 label s) (IsBytes32 s) (fieldOf 32 s) := by
  rw [parseB32_eq]
  by_cases hzero : unprefixed s = [] ∨ unprefixed s = ['0']
  · have hfield : fieldOf 32 s = .zero 32 := by
      rcases hzero with h | h
      · exact fieldOf_nil h
      · rw [fieldOf, h]
        decide +kernel
    have hs : IsBytes32 s := by
      rcases hzero with h | h
      · simp [IsBytes32, h]
      · simp [IsBytes32, h, show isHexDigit '0' = true from rfl]
    rw [if_pos hzero, ← hfield]
    exact (ReturnsIff.of_ok _).congr (by simp [hs])
  rw [if_neg hzero]
  by_cases hlong : utf8Len (unprefixed s) > 64
  · rw [if_pos hlong]
    refine ⟨fun h => ?_, fun _ => ⟨_, rfl⟩⟩
    rw [utf8Len_of_all h.2] at hlong
    exact absurd h.1 (by omega)
  rw [if_neg hlong]
  -- a character takes at least one byte, so the padding is to 64 of them
  have hshort : (unprefixed s).length ≤ 2 * 32 :=
    (length_le_utf8Len _).trans (by omega)
  have hdecode := fun bytes => hexDecode_padLeft0 hshort bytes
  refine ⟨fun h => ?_, fun h => ?_⟩
  · simp only [(hdecode _).2 ⟨h.2, rfl⟩, fromSlice, length_toBe, dif_pos]
    rfl
  · rcases hd : hexDecode (padLeft0 64 (unprefixed s)) with e | bytes
    · exact ⟨_, rfl⟩
    · exact absurd ⟨hshort, ((hdecode _).1 hd).1⟩ h

/-! ## The whole ACP -/

/-- Mapping a conversion over a list converts it in place. -/
theorem tryMapIdx_returns {α β : Type} {f : ℕ → α → Exec AcpError β} {P : α → Prop} {g : α → β}
    (hf : ∀ i a, ReturnsIff (f i a) (P a) (g a)) (l : List α) :
    ∀ i, ReturnsIff (tryMapIdx f i l) (∀ a ∈ l, P a) (l.map g) := by
  induction l with
  | nil => exact fun i => (ReturnsIff.of_ok _).congr (by simp)
  | cons a l ih =>
    intro i
    rw [List.map_cons, tryMapIdx]
    have hrest := (ih (i + 1)).bind (f := fun bs => return g a :: bs) (ReturnsIff.of_ok _)
    exact ((hf i a).bind hrest).congr (by simp)

/-- The ACPs that convert. -/
structure WireAcp (p : AcpData) : Prop where
  contracts_le : p.contracts.length ≤ maxScopeEntries
  handles_le : p.handles.length ≤ maxScopeEntries
  contracts : ∀ s ∈ p.contracts, IsAddress s
  handles : ∀ s ∈ p.handles, IsBytes32 s
  issuer : IsAddress p.issuer
  recipient : IsAddress p.recipient
  revokerContract : IsAddress p.revokerContract
  sealingKey : IsBytes32 p.sealingKey

/-- What an ACP's fields denote, one by one. -/
def acpOf (p : AcpData) : ACP where
  issuer := fieldOf 20 p.issuer
  expiration := p.expiration
  recipient := fieldOf 20 p.recipient
  revokerData := p.revokerData
  revokerContract := fieldOf 20 p.revokerContract
  scope := p.scope
  contracts := p.contracts.map (fieldOf 20)
  handles := p.handles.map (fieldOf 32)
  sealingKey := fieldOf 32 p.sealingKey
  issuerSignature := p.issuerSignature
  recipientSignature := p.recipientSignature

theorem tryFrom_returns {parse : AddressParser} (hparse : ReadsAddresses parse) (p : AcpData) :
    ReturnsIff (ACP.tryFrom parse p) (WireAcp p) (acpOf p) := by
  have haddr := parseAddr_returns hparse
  have hcontracts := tryMapIdx_returns (fun i s => haddr s!"contracts[{i}]" s) p.contracts 0
  have hhandles := tryMapIdx_returns (fun i s => parseB32_returns s!"handles[{i}]" s) p.handles 0
  unfold ACP.tryFrom
  refine ReturnsIff.congr (((hcontracts.bind <| hhandles.bind <| (haddr _ _).bind <|
    (haddr _ _).bind <| (haddr _ _).bind <| (parseB32_returns _ _).bind <|
    ReturnsIff.of_ok (acpOf p)).guarded _).guarded _) ?_
  constructor
  · rintro ⟨hc, hh, h₁, h₂, h₃, h₄, h₅, h₆, -⟩
    exact ⟨Nat.not_lt.1 hc, Nat.not_lt.1 hh, h₁, h₂, h₃, h₄, h₅, h₆⟩
  · intro h
    exact ⟨Nat.not_lt.2 h.contracts_le, Nat.not_lt.2 h.handles_le, h.contracts, h.handles, h.issuer,
      h.recipient, h.revokerContract, h.sealingKey, trivial⟩

/-! ## An ACP as text -/

/-- `0x` and two lowercase digits a byte. -/
def hexText {n : ℕ} (b : FixedBytes n) : String := String.ofList ('0' :: 'x' :: hexEncode b.1)

/-- The ACP with its fields as text. -/
def ACP.render (a : ACP) : AcpData where
  issuer := hexText a.issuer
  expiration := a.expiration
  recipient := hexText a.recipient
  revokerData := a.revokerData
  revokerContract := hexText a.revokerContract
  scope := a.scope
  contracts := a.contracts.map hexText
  handles := a.handles.map hexText
  sealingKey := hexText a.sealingKey
  issuerSignature := a.issuerSignature
  recipientSignature := a.recipientSignature

@[simp] theorem unprefixed_hexText {n : ℕ} (b : FixedBytes n) :
    unprefixed (hexText b) = hexEncode b.1 := by
  simp [unprefixed, hexText, stripPrefix]

@[simp] theorem fieldOf_hexText {n : ℕ} (b : FixedBytes n) : fieldOf n (hexText b) = b := by
  have h := toBe_hexNat_hexEncode b.1
  rw [b.2] at h
  apply Subtype.ext
  simpa [fieldOf, FixedBytes.ofNat] using h

theorem isAddress_hexText (b : Address) : IsAddress (hexText b) := by
  right
  rw [unprefixed_hexText, length_hexEncode, b.2]
  exact ⟨rfl, all_hexEncode _⟩

theorem isBytes32_hexText (b : FixedBytes 32) : IsBytes32 (hexText b) := by
  rw [IsBytes32, unprefixed_hexText, length_hexEncode, b.2]
  exact ⟨le_rfl, all_hexEncode _⟩

theorem acpOf_render (a : ACP) : acpOf a.render = a := by
  simp only [acpOf, ACP.render, fieldOf_hexText, List.map_map]
  simp [Function.comp_def]

theorem wireAcp_render {a : ACP} (hc : a.contracts.length ≤ maxScopeEntries)
    (hh : a.handles.length ≤ maxScopeEntries) : WireAcp a.render where
  contracts_le := by simpa [ACP.render] using hc
  handles_le := by simpa [ACP.render] using hh
  contracts := by
    intro s hs
    obtain ⟨b, -, rfl⟩ := List.mem_map.1 hs
    exact isAddress_hexText b
  handles := by
    intro s hs
    obtain ⟨b, -, rfl⟩ := List.mem_map.1 hs
    exact isBytes32_hexText b
  issuer := isAddress_hexText _
  recipient := isAddress_hexText _
  revokerContract := isAddress_hexText _
  sealingKey := isBytes32_hexText _

/-- The conversion never panics. It returns on the ACPs within the limits whose strings are hex of
their field's width, and gives the ACP of the big-endian numbers the digits denote, every other
field as it was; an ACP's own text converts back to it. -/
theorem acp_wire_exact {parse : AddressParser} (hparse : ReadsAddresses parse) :
    (∀ p, NoPanic (ACP.tryFrom parse p))
    ∧ (∀ p a, ACP.tryFrom parse p = .ok a ↔ WireAcp p ∧ a = acpOf p)
    ∧ (∀ s, IsAddress s → ofBe (fieldOf 20 s).1 = hexNat (unprefixed s))
    ∧ (∀ s, IsBytes32 s → ofBe (fieldOf 32 s).1 = hexNat (unprefixed s))
    ∧ ∀ a : ACP, a.contracts.length ≤ maxScopeEntries → a.handles.length ≤ maxScopeEntries →
      ACP.tryFrom parse a.render = .ok a := by
  refine ⟨fun p => (tryFrom_returns hparse p).noPanic, fun p a => (tryFrom_returns hparse p).eq_ok,
    fun s hs => ?_, fun s hs => ?_, fun a hc hh => ?_⟩
  · refine ofBe_fieldOf ?_
    rcases hs with h | h
    · simp [h]
    · exact h.1.le
  · exact ofBe_fieldOf hs.1
  · rw [(tryFrom_returns hparse a.render).eq_ok]
    exact ⟨wireAcp_render hc hh, (acpOf_render a).symm⟩

/-- An address parser with alloy's reading. -/
def parseAddress40 : AddressParser := fun s =>
  if (unprefixed s).length = 40 ∧ (unprefixed s).all isHexDigit then .ok (fieldOf 20 s)
  else .error "invalid string length"

theorem readsAddresses_parseAddress40 : ReadsAddresses parseAddress40 := by
  intro s a
  unfold parseAddress40
  by_cases h : (unprefixed s).length = 40 ∧ (unprefixed s).all isHexDigit
  · rw [if_pos h]
    simp [h, fieldOf, eq_comm]
  · rw [if_neg h]
    exact ⟨fun h' => by simp at h', fun h' => absurd ⟨h'.1, h'.2.1⟩ h⟩

/-- An ACP with short, empty and repeated entries. -/
def shortAcp : AcpData where
  issuer := "0x1111111111111111111111111111111111111111"
  expiration := 1
  recipient := ""
  revokerData := 0
  revokerContract := "0x"
  scope := 0
  contracts := ["", "0x"]
  handles := ["0x1", "0x1"]
  sealingKey := "f"
  issuerSignature := []
  recipientSignature := []

theorem shortAcp_wire : WireAcp shortAcp := by
  refine ⟨by decide, by decide, ?_, ?_, ?_, ?_, ?_, ?_⟩ <;>
    simp [shortAcp, IsAddress, IsBytes32, unprefixed, stripPrefix] <;> decide

theorem acp_wire_exact_short : ACP.tryFrom parseAddress40 shortAcp = .ok (acpOf shortAcp)
    ∧ ofBe (acpOf shortAcp).sealingKey.1 = 15 := by
  refine ⟨((acp_wire_exact readsAddresses_parseAddress40).2.1 shortAcp _).2
    ⟨shortAcp_wire, rfl⟩, ?_⟩
  rw [show (acpOf shortAcp).sealingKey = fieldOf 32 shortAcp.sealingKey from rfl,
    (acp_wire_exact readsAddresses_parseAddress40).2.2.2.1 _ shortAcp_wire.sealingKey]
  simp [shortAcp, unprefixed, stripPrefix, hexNat, hexVal]

end Teecryptor
