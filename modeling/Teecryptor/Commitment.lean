import Teecryptor.Effects

/-!
# The commitment of a handle

`commitment.rs`: the hash the registry holds for a handle, read through a cache of the hashes seen
so far. Absent answers are not cached.
-/

namespace Teecryptor

inductive CommitmentError
  | notFound
  | misconfigured (msg : String)
  | timeout (after : ℕ)
  | transport (msg : String)
  deriving DecidableEq, Repr

/-- The registry a deployment reads: its address, the version it asks for, and how it treats a
failed check. -/
structure CommitmentConfig where
  registry : Address
  version : FixedBytes 32
  timeout : ℕ
  warnOnly : Bool
  cacheTtl : ℕ
  deriving DecidableEq

structure FetchedCommitment where
  hash : CommitHash
  fromCache : Bool
  deriving DecidableEq

/-- The hash the registry answers now; the cache is set to it, or loses the key when there is
none. -/
def refreshCommitment (cfg : CommitmentConfig) (handle : U256) (hostChainId : UInt64) :
    Attempt CommitmentError CommitHash := do
  match ← attempt (.getCommitment cfg.version (toBeBytes handle)) with
  | .timeout => throw (.timeout cfg.timeout)
  | .error e => throw (.transport e.text)
  | .ok commit =>
    if h : commit ≠ .zero 32 then
      attempt (.putInCache (hostChainId, handle) ⟨commit, h⟩)
      return ⟨commit, h⟩
    else
      attempt (.evictFromCache (hostChainId, handle))
      throw .notFound

/-- The cached hash, or the registry's. -/
def fetchCommitment (cfg : CommitmentConfig) (handle : U256) (hostChainId : UInt64) :
    Attempt CommitmentError FetchedCommitment := do
  match ← attempt (.getFromCache (hostChainId, handle)) with
  | some hash => return ⟨hash, true⟩
  | none =>
    let hash ← refreshCommitment cfg handle hostChainId
    return ⟨hash, false⟩

end Teecryptor
