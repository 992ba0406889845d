import Teecryptor.Keys

/-!
# The attestation socket's messages

A request and its answer are each a head of lines, a blank line and a body. What the client writes
is cut at the blank line into its head and its body, whatever the audience; what the launcher
writes is read back, and nothing else is (`token_framed`).
-/

namespace Teecryptor.Keys

open Bytes Rust Text

/-- Lines with line breaks between them. -/
def joinLines (lines : List (List Char)) : List Char := crlf.intercalate lines

/-- The head of a message: a first line, and lines that are not blank. -/
structure HeadLines (line : List Char) (lines : List (List Char)) : Prop where
  unbroken : ∀ l ∈ line :: lines, '\r' ∉ l
  nonblank : ∀ l ∈ lines, l ≠ []

variable {line : List Char} {lines : List (List Char)} {body : List Char}

theorem joinLines_cons (line next : List Char) (lines : List (List Char)) :
    joinLines (line :: next :: lines) = line ++ (crlf ++ joinLines (next :: lines)) := by
  simp [joinLines, List.intercalate]

theorem joinLines_append (line : List Char) (lines : List (List Char)) :
    ∃ rest, joinLines (line :: lines) = line ++ rest
      ∧ ∀ body, ∃ rest', rest ++ (crlf ++ body) = crlf ++ rest' := by
  rcases lines with _ | ⟨next, lines⟩
  · exact ⟨[], by simp [joinLines, List.intercalate], fun body => ⟨body, rfl⟩⟩
  · exact ⟨crlf ++ joinLines (next :: lines), joinLines_cons _ _ _,
      fun body => ⟨joinLines (next :: lines) ++ (crlf ++ body), by simp⟩⟩

theorem crlf_append (s : List Char) : crlf ++ s = '\r' :: '\n' :: s := rfl

theorem blankLine_eq : crlf ++ crlf = '\r' :: ['\n', '\r', '\n'] := rfl

/-- A message is cut at the blank line after its head. -/
theorem splitOnce_message (h : HeadLines line lines) :
    splitOnce (crlf ++ crlf) (joinLines (line :: lines) ++ (crlf ++ (crlf ++ body)))
      = some (joinLines (line :: lines), body) := by
  induction lines generalizing line with
  | nil =>
    have hcut : splitOnce (crlf ++ crlf) (crlf ++ (crlf ++ body)) = some ([], body) := by
      simp [crlf, splitOnce, stripPrefix]
    have hone : joinLines [line] = line := by simp [joinLines, List.intercalate]
    rw [blankLine_eq] at hcut ⊢
    rw [hone, splitOnce_skip (h.unbroken line List.mem_cons_self), hcut]
    simp
  | cons next lines ih =>
    have hih := @ih next ⟨fun l hl => h.unbroken l (List.mem_cons_of_mem _ hl),
      fun l hl => h.nonblank l (List.mem_cons_of_mem _ hl)⟩
    obtain ⟨d, next', rfl⟩ := List.exists_cons_of_ne_nil (h.nonblank next List.mem_cons_self)
    have hd : d ≠ '\r' := by
      rintro rfl
      exact h.unbroken _ (List.mem_cons_of_mem _ List.mem_cons_self) List.mem_cons_self
    obtain ⟨rest, hrest, -⟩ := joinLines_append (d :: next') lines
    -- the line after the break is not blank, so the break is not the blank line's
    have hfirst : stripPrefix (crlf ++ crlf)
        ('\r' :: '\n' :: (joinLines ((d :: next') :: lines) ++ (crlf ++ (crlf ++ body)))) = none := by
      refine stripPrefix_eq_none.2 fun t ht => hd ?_
      rw [hrest] at ht
      exact (List.cons.inj (List.cons.inj (List.cons.inj ht).2).2).1
    have hsecond : stripPrefix (crlf ++ crlf)
        ('\n' :: (joinLines ((d :: next') :: lines) ++ (crlf ++ (crlf ++ body)))) = none :=
      stripPrefix_eq_none.2 fun t ht => absurd (List.cons.inj ht).1 (by decide)
    have hbreak : splitOnce (crlf ++ crlf)
        (crlf ++ (joinLines ((d :: next') :: lines) ++ (crlf ++ (crlf ++ body))))
        = some (crlf ++ joinLines ((d :: next') :: lines), body) := by
      rw [crlf_append (joinLines _ ++ _), splitOnce_cons hfirst, splitOnce_cons hsecond, hih]
      rfl
    rw [blankLine_eq] at hbreak ⊢
    rw [joinLines_cons, List.append_assoc, List.append_assoc,
      splitOnce_skip (h.unbroken line List.mem_cons_self), hbreak]
    simp

/-- The first piece of a message is its first line. -/
theorem firstPiece_message (h : '\r' ∉ line) :
    firstPiece crlf (joinLines (line :: lines) ++ (crlf ++ (crlf ++ body))) = line := by
  obtain ⟨rest, hrest, hbreak⟩ := joinLines_append line lines
  obtain ⟨rest', hrest'⟩ := hbreak (crlf ++ body)
  have hcut : splitOnce crlf (crlf ++ rest') = some ([], rest') := by
    simp [crlf, splitOnce, stripPrefix]
  rw [hrest, List.append_assoc, hrest', firstPiece]
  rw [show crlf = '\r' :: ['\n'] from rfl] at hcut ⊢
  rw [splitOnce_skip h, hcut]
  simp

/-- The bytes of a text. -/
def utf8 (text : List Char) : List UInt8 := (String.ofList text).toUTF8.data.toList

theorem fromUTF8_utf8 (text : List Char) :
    String.fromUTF8? ⟨(utf8 text).toArray⟩ = some (String.ofList text) := by
  simp only [utf8, String.fromUTF8?, Array.toArray_toList]
  exact dif_pos (String.ofList text).isValidUTF8

/-! ## The request -/

def contentLengthLine (contentLength : ℕ) : List Char :=
  "Content-Length: ".toList ++ Nat.toDigits 10 contentLength

/-- The lines of a request's head after the first. -/
def requestLines (contentLength : ℕ) : List (List Char) :=
  ["Host: localhost".toList, "Content-Type: application/json".toList,
    contentLengthLine contentLength]

theorem requestHead_eq (n : ℕ) :
    requestHead n = joinLines ("POST /v1/token HTTP/1.0".toList :: requestLines n) := by
  have hfirst : "POST /v1/token HTTP/1.0\r\nHost: localhost\r\n".toList
      = "POST /v1/token HTTP/1.0".toList ++ (crlf ++ ("Host: localhost".toList ++ crlf)) := by
    decide +kernel
  have hlast : "Content-Type: application/json\r\nContent-Length: ".toList
      = "Content-Type: application/json".toList ++ (crlf ++ "Content-Length: ".toList) := by
    decide +kernel
  unfold requestHead requestLines contentLengthLine
  rw [hfirst, hlast]
  generalize "POST /v1/token HTTP/1.0".toList = post
  generalize "Host: localhost".toList = host
  generalize "Content-Type: application/json".toList = contentType
  generalize "Content-Length: ".toList = label
  rw [joinLines_cons, joinLines_cons, joinLines_cons, joinLines, List.intercalate_singleton]
  simp only [List.append_assoc]

theorem headLines_request (n : ℕ) :
    HeadLines "POST /v1/token HTTP/1.0".toList (requestLines n) where
  unbroken := by
    have hdigits : '\r' ∉ Nat.toDigits 10 n := fun h =>
      absurd (Nat.isDigit_of_mem_toDigits (by decide) le_rfl h) (by decide)
    have hlabel : '\r' ∉ "Content-Length: ".toList := by decide +kernel
    intro l hl
    simp only [requestLines, List.mem_cons, List.not_mem_nil, or_false] at hl
    rcases hl with rfl | rfl | rfl | rfl
    · decide +kernel
    · decide +kernel
    · decide +kernel
    · exact fun h => (List.mem_append.1 h).elim hlabel hdigits
  nonblank := by
    have hlabel : "Content-Length: ".toList ≠ [] := by decide +kernel
    intro l hl
    simp only [requestLines, List.mem_cons, List.not_mem_nil, or_false] at hl
    rcases hl with rfl | rfl | rfl
    · decide +kernel
    · decide +kernel
    · exact List.append_ne_nil_of_left_ne_nil hlabel _

/-! ## Both messages -/

/-- The launcher's server cuts a request at its first blank line into the head and the body, which
has the length the head gives. The client reads back the body of an answer whose status line has
the code 200 and refuses any other; and what it reads back stands after the first blank line of an
answer with that code. -/
theorem token_framed (json : String → List Char) (audience : String) :
    splitOnce (crlf ++ crlf) (tokenRequest json audience)
        = some (requestHead (utf8Len (tokenBody json audience)), tokenBody json audience)
    ∧ (∀ (line : List Char) (lines : List (List Char)) (body : List Char), HeadLines line lines →
        parseToken (utf8 (joinLines (line :: lines) ++ (crlf ++ (crlf ++ body))))
          = if " 200 ".toList <:+: line then .ok (String.ofList (trim body))
            else .error (.status (String.ofList (trim line))))
    ∧ ∀ (response : List UInt8) (jwt : String), parseToken response = .ok jwt →
        ∃ head body, String.fromUTF8? ⟨response.toArray⟩
            = some (String.ofList (head ++ (crlf ++ crlf ++ body)))
          ∧ (∀ a b, head ++ (crlf ++ crlf ++ body) = a ++ (crlf ++ crlf ++ b) →
            head.length ≤ a.length)
          ∧ " 200 ".toList <:+: firstPiece crlf (head ++ (crlf ++ crlf ++ body))
          ∧ jwt = String.ofList (trim body) := by
  refine ⟨?_, fun line lines body h => ?_, fun response jwt h => ?_⟩
  · rw [tokenRequest, requestHead_eq]
    exact splitOnce_message (headLines_request _)
  · rw [parseToken, fromUTF8_utf8]
    simp only [String.toList_ofList, firstPiece_message (h.unbroken line List.mem_cons_self),
      splitOnce_message h]
    by_cases hcode : " 200 ".toList <:+: line
    · rw [if_pos hcode, if_neg (not_not.2 (contains_iff.2 hcode))]
    · rw [if_neg hcode, if_pos fun hc => hcode (contains_iff.1 hc)]
  · rw [parseToken] at h
    rcases hs : String.fromUTF8? ⟨response.toArray⟩ with _ | text
    · rw [hs] at h
      cases h
    · rw [hs] at h
      simp only at h
      split_ifs at h with hcode
      rcases hcut : splitOnce (crlf ++ crlf) text.toList with _ | ⟨head, body⟩
      · rw [hcut] at h
        cases h
      · rw [hcut] at h
        cases h
        obtain ⟨htext, hfirst⟩ := splitOnce_eq_some.1 hcut
        refine ⟨head, body, ?_, ?_, ?_, rfl⟩
        · rw [← htext, String.ofList_toList]
        · rw [← htext]
          exact hfirst
        · rw [← htext]
          exact contains_iff.1 hcode

end Teecryptor.Keys
