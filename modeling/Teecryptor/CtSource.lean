import Teecryptor.Effects

/-!
# Fetching a ciphertext

`ct_source.rs`: a handle is posted to ct-server's `/GetStoredCt`, and a successful answer's body is
read up to a cap, parsed as JSON and hex-decoded. What serde makes of the body is a parameter.
-/

namespace Teecryptor

open Bytes Rust

structure FheCiphertext where
  handle : String
  data : List UInt8
  encryptionType : ℤ
  securityZone : ℤ
  compact : Bool
  gzipped : Bool
  deriving DecidableEq

inductive CtFetchError
  | notFound
  | notReady
  | timeout
  | transport (msg : String)
  | unexpectedStatus (status : ℕ)
  | badResponse (msg : String)
  deriving DecidableEq, Repr

/-- The JSON body of a successful answer. -/
structure GetCtResponse where
  data : String
  uintType : ℤ
  securityZone : ℤ
  compact : Bool
  gzipped : Bool
  deriving DecidableEq

/-- 8 MiB. -/
def maxBodyBytes : ℕ := 8 * 1024 * 1024

/-- One pass of the loop: the next chunk goes to the end of the buffer. -/
def appendChunk (raw chunk : List UInt8) : Except CtFetchError (List UInt8) :=
  if raw.length + chunk.length > maxBodyBytes then
    .error (.badResponse s!"response body exceeds {maxBodyBytes}-byte cap")
  else .ok (raw ++ chunk)

/-- The body read so far and the chunks still to come. -/
def readChunks (readError : Option String) :
    List UInt8 → List (List UInt8) → Except CtFetchError (List UInt8)
  | raw, [] =>
    match readError with
    | none => .ok raw
    | some e => .error (.badResponse e)
  | raw, chunk :: chunks => do
    let raw ← appendChunk raw chunk
    readChunks readError raw chunks

def checkStatus (status : ℕ) : Except CtFetchError Unit :=
  if status = 200 then .ok ()
  else if status = 404 then .error .notFound
  else if status = 428 then .error .notReady
  else .error (.unexpectedStatus status)

def checkContentLength : Option ℕ → Except CtFetchError Unit
  | some len =>
    if len > maxBodyBytes then
      .error (.badResponse s!"response body {len} bytes exceeds {maxBodyBytes} cap")
    else .ok ()
  | none => .ok ()

/-- The ciphertext in ct-server's answer. -/
def readReply (parse : List UInt8 → Except String GetCtResponse) (handle : String) :
    HttpReply → Except CtFetchError FheCiphertext
  | .sendError isTimeout msg => .error (if isTimeout then .timeout else .transport msg)
  | .response status contentLength chunks readError => do
    checkStatus status
    checkContentLength contentLength
    let raw ← readChunks readError [] chunks
    let body ← (parse raw).mapError .badResponse
    let hexStr := (stripPrefix ['0', 'x'] body.data.toList).getD body.data.toList
    let data ← (hexDecode hexStr).mapError fun e => .badResponse s!"hex data: {e}"
    return {
      handle, data, encryptionType := body.uintType, securityZone := body.securityZone,
      compact := body.compact, gzipped := body.gzipped }

/-- `CtSource::fetch`. -/
def fetch (parse : List UInt8 → Except String GetCtResponse) (handle : String) :
    Task (Except CtFetchError FheCiphertext) := do
  let reply ← perform (.getStoredCt handle)
  return readReply parse handle reply

end Teecryptor
