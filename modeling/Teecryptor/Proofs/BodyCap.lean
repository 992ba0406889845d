import Teecryptor.CtSource
import Mathlib.Logic.Relation

/-!
# The cap on ct-server's body

`fetch` appends a chunk only if the buffer with it stays within the cap. So the buffer is within the
cap at every pass of the loop, and what is parsed is the whole body, or nothing: where the chunks of
a body end makes no difference (`body_capped`).
-/

namespace Teecryptor

open Bytes Rust

/-- The buffer, and the chunks still to come. -/
abbrev ReadState := List UInt8 × List (List UInt8)

/-- One pass of the loop that goes through. -/
inductive ReadStep : ReadState → ReadState → Prop
  | append {raw raw' chunk : List UInt8} {chunks : List (List UInt8)}
      (h : appendChunk raw chunk = .ok raw') : ReadStep (raw, chunk :: chunks) (raw', chunks)

/-- A pass goes through exactly if the chunk fits. -/
theorem appendChunk_eq_ok {raw raw' chunk : List UInt8} : appendChunk raw chunk = .ok raw' ↔
    raw.length + chunk.length ≤ maxBodyBytes ∧ raw' = raw ++ chunk := by
  unfold appendChunk
  split_ifs with h
  · simp only [false_iff, not_and]
    omega
  · simp only [Except.ok.injEq, not_lt.1 h, true_and, eq_comm]

section Loop

variable {readError : Option String} {a b : ReadState}

/-- The loop goes on from where a pass leaves it. -/
theorem readChunks_step (h : ReadStep a b) :
    readChunks readError a.1 a.2 = readChunks readError b.1 b.2 := by
  obtain ⟨h⟩ := h
  rw [readChunks, h]
  rfl

/-- Where no pass goes through the loop ends: at the last chunk, or at one that does not fit. -/
theorem readChunks_stuck {raw : List UInt8} {chunks : List (List UInt8)}
    (h : ∀ b, ¬ ReadStep (raw, chunks) b) :
    chunks = [] ∨ ∃ e, readChunks readError raw chunks = .error e := by
  rcases chunks with _ | ⟨chunk, chunks⟩
  · exact .inl rfl
  · rcases hpass : appendChunk raw chunk with e | raw'
    · exact .inr ⟨e, by rw [readChunks, hpass]; rfl⟩
    · exact absurd (.append hpass) (h _)

theorem readStep_bounded (h : ReadStep a b) : b.1.length ≤ maxBodyBytes := by
  obtain ⟨h⟩ := h
  obtain ⟨hfits, rfl⟩ := appendChunk_eq_ok.1 h
  simpa using hfits

theorem reads_bounded (ha : a.1.length ≤ maxBodyBytes) (h : Relation.ReflTransGen ReadStep a b) :
    b.1.length ≤ maxBodyBytes := by
  induction h with
  | refl => exact ha
  | tail _ hstep _ => exact readStep_bounded hstep

/-- What the loop does with a body depends on its length only. -/
theorem readChunks_eq (readError : Option String) (raw : List UInt8) (chunks : List (List UInt8))
    (hraw : raw.length ≤ maxBodyBytes) :
    readChunks readError raw chunks =
      if (raw ++ chunks.flatten).length ≤ maxBodyBytes then
        readError.elim (.ok (raw ++ chunks.flatten)) (.error <| .badResponse ·)
      else .error (.badResponse s!"response body exceeds {maxBodyBytes}-byte cap") := by
  induction chunks generalizing raw with
  | nil =>
    rw [List.flatten_nil, List.append_nil, if_pos hraw]
    cases readError <;> rfl
  | cons chunk chunks ih =>
    rw [readChunks, List.flatten_cons, ← List.append_assoc]
    by_cases hfits : raw.length + chunk.length ≤ maxBodyBytes
    · rw [appendChunk_eq_ok.2 ⟨hfits, rfl⟩]
      exact ih (raw ++ chunk) (by simpa using hfits)
    · rw [appendChunk, if_pos (by omega), if_neg]
      · rfl
      · simp only [List.length_append]
        omega

end Loop

/-- The body in ct-server's answer, before anything reads it. -/
def replyBody : HttpReply → Except CtFetchError (List UInt8)
  | .sendError isTimeout msg => .error (if isTimeout then .timeout else .transport msg)
  | .response status contentLength chunks readError => do
    checkStatus status
    checkContentLength contentLength
    readChunks readError [] chunks

/-- The ciphertext in a body, which is parsed first. -/
def readBody (parse : List UInt8 → Except String GetCtResponse) (handle : String)
    (raw : List UInt8) : Except CtFetchError FheCiphertext := do
  let body ← (parse raw).mapError .badResponse
  let hexStr := (stripPrefix ['0', 'x'] body.data.toList).getD body.data.toList
  let data ← (hexDecode hexStr).mapError fun e => .badResponse s!"hex data: {e}"
  return {
    handle, data, encryptionType := body.uintType, securityZone := body.securityZone,
    compact := body.compact, gzipped := body.gzipped }

theorem readReply_eq (parse : List UInt8 → Except String GetCtResponse) (handle : String)
    (reply : HttpReply) :
    readReply parse handle reply = replyBody reply >>= readBody parse handle := by
  rcases reply with ⟨isTimeout, msg⟩ | ⟨status, contentLength, chunks, readError⟩
  · rfl
  · simp only [readReply, replyBody]
    rcases checkStatus status with e | u
    · rfl
    rcases checkContentLength contentLength with e | u
    · rfl
    · rfl

theorem checkContentLength_eq_ok {len : Option ℕ} :
    checkContentLength len = .ok () ↔ ∀ n, len = some n → n ≤ maxBodyBytes := by
  rcases len with _ | n
  · simp [checkContentLength]
  · simp only [checkContentLength, Option.some.injEq, forall_eq']
    split_ifs with h
    · simp only [false_iff]
      omega
    · simp only [true_iff]
      omega

/-- Where the declared length and the body are within the cap and every read succeeds, the body is
handed over, as the concatenation of its chunks; and only there. -/
theorem replyBody_eq_ok {len : Option ℕ} {chunks : List (List UInt8)} {readError : Option String}
    {raw : List UInt8} : replyBody (.response 200 len chunks readError) = .ok raw ↔
      (∀ n, len = some n → n ≤ maxBodyBytes) ∧ chunks.flatten.length ≤ maxBodyBytes
        ∧ readError = none ∧ raw = chunks.flatten := by
  have hstatus : checkStatus 200 = .ok () := rfl
  have hread := readChunks_eq readError [] chunks (Nat.zero_le _)
  rw [List.nil_append] at hread
  rw [← checkContentLength_eq_ok]
  simp only [replyBody, hstatus, hread]
  rcases hlen : checkContentLength len with e | u
  · simp only [reduceCtorEq, false_and, iff_false]
    exact fun h => by cases h
  · show (if _ then _ else _) = _ ↔ _
    by_cases hle : chunks.flatten.length ≤ maxBodyBytes
    · rw [if_pos hle]
      rcases readError with _ | e
      · simp only [Option.elim_none, Except.ok.injEq, hle, true_and]
        exact eq_comm
      · simp
    · rw [if_neg hle]
      simp only [reduceCtorEq, hle, false_and, and_false]

/-- Whatever ct-server declares and however it cuts the body: the buffer is within the cap at every
pass of the loop; a body is parsed exactly if the declared length and the body are within the cap
and no read failed, and it is then the concatenation of the chunks; and the outcome is the same for
every way of cutting the body. -/
theorem body_capped (parse : List UInt8 → Except String GetCtResponse) (handle : String)
    (len : Option ℕ) (chunks : List (List UInt8)) (readError : Option String) :
    (∀ raw rest, Relation.ReflTransGen ReadStep ([], chunks) (raw, rest) →
      raw.length ≤ maxBodyBytes
        ∧ readChunks readError raw rest = readChunks readError [] chunks
        ∧ ((∀ b, ¬ ReadStep (raw, rest) b) →
          rest = [] ∨ ∃ e, readChunks readError raw rest = .error e))
    ∧ readReply parse handle (.response 200 len chunks readError)
      = replyBody (.response 200 len chunks readError) >>= readBody parse handle
    ∧ (∀ raw, replyBody (.response 200 len chunks readError) = .ok raw ↔
      (∀ n, len = some n → n ≤ maxBodyBytes) ∧ chunks.flatten.length ≤ maxBodyBytes
        ∧ readError = none ∧ raw = chunks.flatten)
    ∧ ∀ chunks', chunks'.flatten = chunks.flatten →
      readReply parse handle (.response 200 len chunks' readError)
        = readReply parse handle (.response 200 len chunks readError) := by
  refine ⟨fun raw rest h => ⟨reads_bounded (Nat.zero_le _) h, ?_, readChunks_stuck⟩,
    readReply_eq _ _ _, fun raw => replyBody_eq_ok, fun chunks' hflat => ?_⟩
  · have hsame : ∀ {b : ReadState}, Relation.ReflTransGen ReadStep ([], chunks) b →
        readChunks readError b.1 b.2 = readChunks readError [] chunks := by
      intro b hb
      induction hb with
      | refl => rfl
      | tail _ hstep ih => rw [← readChunks_step hstep, ih]
    exact hsame h
  · have hread := readChunks_eq readError [] chunks (Nat.zero_le _)
    have hread' := readChunks_eq readError [] chunks' (Nat.zero_le _)
    rw [hflat, ← hread] at hread'
    simp only [readReply, hread']

/-- A body of three bytes, in one chunk or in three with an empty one among them. -/
theorem body_capped_cut :
    readReply (fun _ => .ok ⟨"0x01", 0, 0, true, false⟩) "0x00"
        (.response 200 (some 3) [[1], [], [2, 3]] none)
      = readReply (fun _ => .ok ⟨"0x01", 0, 0, true, false⟩) "0x00"
        (.response 200 (some 3) [[1, 2, 3]] none) :=
  (body_capped _ "0x00" (some 3) [[1, 2, 3]] none).2.2.2 [[1], [], [2, 3]] rfl

end Teecryptor
