import Teecryptor.Http

/-!
# One handle for every consumer

A handle is read three times: as the number the contracts take, as the string ct-server keys rows
by, and by the signer, which decodes that string again. All three readings name the same 32 bytes,
and the spelling the request used is gone once the handle is parsed.
-/

namespace Teecryptor

open Bytes Rust

/-- `raw` spells the hex digits `digits`, with or without one prefix. -/
def Spells (raw : String) (digits : List Char) : Prop :=
  raw.toList = digits ∨ raw.toList = '0' :: 'x' :: digits ∨ raw.toList = '0' :: 'X' :: digits

/-- No spelling of hex digits is taken for another: `x` is not a hex digit. -/
theorem handleDigits_of_spells {raw : String} {digits : List Char} (h : Spells raw digits)
    (ha : digits.all isHexDigit) : handleDigits raw = digits := by
  have hx : ∀ c, isHexDigit c = false → ∀ s, digits ≠ '0' :: c :: s := by
    rintro c hc s rfl
    simp [hc] at ha
  have hnone : ∀ c, isHexDigit c = false → stripPrefix ['0', c] digits = none := by
    intro c hc
    by_contra hne
    obtain ⟨s, hs⟩ := Option.ne_none_iff_exists'.1 hne
    exact hx c hc s (stripPrefix_eq_some.1 hs)
  rcases h with h | h | h
  · simp [handleDigits, h, hnone 'x' rfl, hnone 'X' rfl]
  · simp [handleDigits, stripPrefix, h]
  · simp [handleDigits, stripPrefix, h]

theorem spells_handleDigits (raw : String) : Spells raw (handleDigits raw) := by
  unfold handleDigits
  rcases h₁ : stripPrefix ['0', 'x'] raw.toList with _ | s
  · rcases h₂ : stripPrefix ['0', 'X'] raw.toList with _ | s
    · exact .inl rfl
    · exact .inr (.inr (stripPrefix_eq_some.1 h₂))
  · exact .inr (.inl (stripPrefix_eq_some.1 h₁))

theorem handle_parse_isSome {raw : String} :
    (Handle.parse raw).isSome ↔
      (handleDigits raw).length = 64 ∧ (handleDigits raw).all isHexDigit := by
  unfold Handle.parse
  simp only
  split
  next h =>
    simp only [Option.isSome_some, true_iff]
    exact ⟨(utf8Len_of_all h.2).symm.trans h.1, h.2⟩
  next h =>
    simp only [Option.isSome_none, Bool.false_eq_true, false_iff]
    exact fun h' => h ⟨(utf8Len_of_all h'.2).trans h'.1, h'.2⟩

theorem parseCtHash_isOk {raw : String} :
    (∃ b, parseCtHash raw = .ok b) ↔
      (handleDigits raw).length = 64 ∧ (handleDigits raw).all isHexDigit := by
  constructor
  · rintro ⟨b, h⟩
    unfold parseCtHash at h
    split at h
    · cases h
    next bytes hd =>
      obtain ⟨ha, hl, -⟩ := hexDecode_eq_ok hd
      split at h
      next h32 => exact ⟨by omega, ha⟩
      · cases h
  · rintro ⟨hl, ha⟩
    exact ⟨.ofNat 32 _, parseCtHash_of_hexDecode (hexDecode_of_all (k := 32) hl ha)⟩

/-- A parsed handle is the one of its digits. -/
theorem handle_parse_eq {raw : String} {h : Handle} (hp : Handle.parse raw = some h) :
    ∃ (hl : (handleDigits raw).length = 64) (ha : (handleDigits raw).all isHexDigit),
      h = .ofDigits (handleDigits raw) hl ha := by
  obtain ⟨hl, ha⟩ := handle_parse_isSome.1 (by rw [hp]; rfl)
  refine ⟨hl, ha, ?_⟩
  rw [Handle.parse_of_digits rfl hl ha] at hp
  exact (Option.some.inj hp).symm

section

variable {digits : List Char} {hl : digits.length = 64} {ha : digits.all isHexDigit}

theorem toBeBytes_ofDigits :
    (toBeBytes (Handle.ofDigits digits hl ha).u256).1 = toBe 32 (hexNat digits) := by
  have hlt : hexNat digits < 2 ^ 256 := by
    have := hexNat_lt digits
    rwa [hl, show (16 : ℕ) ^ 64 = 2 ^ 256 by norm_num] at this
  simp only [toBeBytes, FixedBytes.ofNat, Handle.ofDigits, BitVec.toNat_ofNat,
    Nat.mod_eq_of_lt hlt]

/-- The lowercase digits of a handle are the encoding of its bytes. -/
theorem hexEncode_ofDigits :
    hexEncode (toBeBytes (Handle.ofDigits digits hl ha).u256).1 = digits.map Char.toLower := by
  rw [toBeBytes_ofDigits]
  exact (hexDecode_eq_ok (hexDecode_of_all (k := 32) hl ha)).2.2

theorem asStr_ofDigits : (Handle.ofDigits digits hl ha).asStr
    = String.ofList ('0' :: 'x' :: hexEncode (toBeBytes (Handle.ofDigits digits hl ha).u256).1) := by
  rw [hexEncode_ofDigits]
  rfl

theorem toLower_toLower {c : Char} (h : isHexDigit c) : c.toLower.toLower = c.toLower := by
  obtain ⟨v, hv⟩ := isHexDigit_iff.1 h
  rw [← digitChar_hexVal (hexVal_toLower hv), digitChar_hexVal hv]

/-- The canonical text of a handle is parsed back as the handle. -/
theorem handle_parse_asStr :
    Handle.parse (Handle.ofDigits digits hl ha).asStr = some (.ofDigits digits hl ha) := by
  have hlow : (digits.map Char.toLower).map Char.toLower = digits.map Char.toLower := by
    rw [List.map_map]
    exact List.map_congr_left fun c hc => toLower_toLower (List.all_eq_true.1 ha c hc)
  rw [Handle.asStr, Handle.ofDigits,
    Handle.parse_of_digits (handleDigits_canonical _) (by simpa using hl) (all_toLower ha)]
  simp only [Handle.ofDigits, hlow, hexNat_toLower _ ha]

end

/-- The 32 bytes of a handle: the ones the contracts and the type check take, and the ones the
signer reads from the request's spelling and from the canonical one. -/
theorem handle_bytes {raw : String} {h : Handle} (hp : Handle.parse raw = some h) :
    parseCtHash raw = .ok (toBeBytes h.u256) ∧ parseCtHash h.asStr = .ok (toBeBytes h.u256)
      ∧ h.asStr = String.ofList ('0' :: 'x' :: hexEncode (toBeBytes h.u256).1)
      ∧ Handle.parse h.asStr = some h := by
  obtain ⟨hl, ha, rfl⟩ := handle_parse_eq hp
  refine ⟨?_, (Handle.ofDigits _ hl ha).agrees, asStr_ofDigits, handle_parse_asStr⟩
  apply parseCtHash_of_hexDecode
  rw [toBeBytes_ofDigits]
  exact hexDecode_of_all (k := 32) hl ha

theorem asStr_eq_iff {raw raw' : String} {h h' : Handle} (hp : Handle.parse raw = some h)
    (hp' : Handle.parse raw' = some h') :
    h.asStr = h'.asStr ↔ toBeBytes h.u256 = toBeBytes h'.u256 := by
  obtain ⟨-, hb, ht, -⟩ := handle_bytes hp
  obtain ⟨-, hb', ht', -⟩ := handle_bytes hp'
  constructor
  · intro he
    rw [he, hb'] at hb
    exact (Except.ok.inj hb).symm
  · intro he
    rw [ht, ht', he]

/-- The handle parser and the signer's accept the same strings, 64 hex digits of either case after
at most one `0x` or `0X`. Where they do, the number for the contracts, the signer's reading of the
request and its reading of the canonical text are the same 32 bytes, whose lowercase hex after `0x`
is that text; the text is parsed back as the same handle, and is the same for two requests exactly
if the bytes are. -/
theorem handle_agrees (raw : String) :
    ((Handle.parse raw).isSome ↔ ∃ b, parseCtHash raw = .ok b)
      ∧ ((Handle.parse raw).isSome ↔
        ∃ digits, Spells raw digits ∧ digits.length = 64 ∧ digits.all isHexDigit)
      ∧ ∀ h, Handle.parse raw = some h →
        parseCtHash raw = .ok (toBeBytes h.u256) ∧ parseCtHash h.asStr = .ok (toBeBytes h.u256)
          ∧ h.asStr = String.ofList ('0' :: 'x' :: hexEncode (toBeBytes h.u256).1)
          ∧ Handle.parse h.asStr = some h
          ∧ ∀ raw' h', Handle.parse raw' = some h' →
            (h.asStr = h'.asStr ↔ toBeBytes h.u256 = toBeBytes h'.u256) := by
  refine ⟨handle_parse_isSome.trans parseCtHash_isOk.symm, handle_parse_isSome.trans ?_, ?_⟩
  · constructor
    · rintro ⟨hl, ha⟩
      exact ⟨_, spells_handleDigits raw, hl, ha⟩
    · rintro ⟨digits, hs, hl, ha⟩
      rw [handleDigits_of_spells hs ha]
      exact ⟨hl, ha⟩
  · intro h hp
    obtain ⟨h₁, h₂, h₃, h₄⟩ := handle_bytes hp
    exact ⟨h₁, h₂, h₃, h₄, fun raw' h' hp' => asStr_eq_iff hp hp'⟩

/-- The two prefixes of the same digits, in different cases. -/
theorem handle_agrees_cases :
    (Handle.parse (String.ofList ('0' :: 'X' :: List.replicate 64 'A'))).map Handle.asStr
      = (Handle.parse (String.ofList (List.replicate 64 'a'))).map Handle.asStr := by
  obtain ⟨-, hupper, hagree⟩ := handle_agrees (String.ofList ('0' :: 'X' :: List.replicate 64 'A'))
  obtain ⟨-, hlower, hagree'⟩ := handle_agrees (String.ofList (List.replicate 64 'a'))
  obtain ⟨h, hp⟩ := Option.isSome_iff_exists.1 (hupper.2 ⟨List.replicate 64 'A',
    .inr (.inr (by simp)), by simp, by decide⟩)
  obtain ⟨h', hp'⟩ := Option.isSome_iff_exists.1 (hlower.2 ⟨List.replicate 64 'a',
    .inl (by simp), by simp, by decide⟩)
  have hb := (hagree h hp).1
  have hb' := (hagree' h' hp').1
  rw [hp, hp', Option.map_some, Option.map_some, ((hagree h hp).2.2.2.2 _ h' hp').2 ?_]
  have hsame : parseCtHash (String.ofList ('0' :: 'X' :: List.replicate 64 'A'))
      = parseCtHash (String.ofList (List.replicate 64 'a')) := by decide
  exact Except.ok.inj (hb.symm.trans (hsame.trans hb'))

end Teecryptor
