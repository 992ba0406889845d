import Teecryptor.Acp
import Teecryptor.Lib.System
import Teecryptor.Lib.Lru

/-!
# What a handler does outside itself

The operations a request handler performs: RPCs to the TaskManager and the commitment registry,
the fetch from ct-server, the commitment cache, the v2 result caches, the two semaphores, fresh
randomness, and the log lines that carry a `gate`. `shared` is the state of the process they act
on. RPCs and ct-server are answered arbitrarily; the caches and the semaphores answer from the
state.
-/

namespace Teecryptor

open Interact Rust

/-- A commit hash a cache entry can hold: `put_in_cache` is only reached with a non-zero one. -/
abbrev CommitHash := {b : FixedBytes 32 // b ≠ .zero 32}

/-- A cached commit hash, with the time it was read at. -/
structure CacheEntry where
  commit : CommitHash
  storedAt : ℕ
  deriving DecidableEq

/-- `(host_chain_id, handle)`. -/
abbrev CommitKey := UInt64 × U256

structure V2CachedResult where
  decrypted : List UInt8
  signature : String
  encryptionType : ℤ
  submittedAt : String
  completedAt : String
  deriving DecidableEq

structure V2SealCachedResult where
  sealedData : List UInt8
  ephemeralPublicKey : List UInt8
  nonce : List UInt8
  signature : String
  encryptionType : ℤ
  submittedAt : String
  completedAt : String
  deriving DecidableEq

/-- ct-server's answer as the HTTP client sees it: the body comes in chunks, and reading on after
them can fail. -/
inductive HttpReply
  | sendError (isTimeout : Bool) (msg : String)
  | response (status : ℕ) (contentLength : Option ℕ) (chunks : List (List UInt8))
      (readError : Option String)
  deriving DecidableEq

/-- An X25519 key pair, as `KeyPair::gen` returns it. -/
structure KeyPair where
  publicKey : FixedBytes 32
  secretKey : FixedBytes 32
  deriving DecidableEq

/-- The stable fields of a log line that has a `gate`. -/
structure LogLine where
  gate : String
  reason : Option String
  mode : Option String
  deriving DecidableEq, Repr

inductive Op
  /-- `Uuid::new_v4`. -/
  | newUuid
  /-- `chrono::Utc::now`, as text. -/
  | utcNow
  | keyPairGen
  | nonceGen
  /-- `TaskManager.isAllowedWithPermission`, on the chain of the configuration. -/
  | isAllowedWithPermission (chain : ChainConfig) (acp : ACP) (handle : U256)
  /-- `TaskManager.isPubliclyAllowed`. -/
  | isPubliclyAllowed (chain : ChainConfig) (handle : U256)
  /-- `CommitmentRegistry.getCommitment`. -/
  | getCommitment (version handle : FixedBytes 32)
  | getFromCache (key : CommitKey)
  | putInCache (key : CommitKey) (commit : CommitHash)
  | evictFromCache (key : CommitKey)
  /-- ct-server's `POST /GetStoredCt`. -/
  | getStoredCt (hash : String)
  /-- `admit_sem.try_acquire_owned`. -/
  | tryAdmit
  /-- The admission permit is dropped. -/
  | dropAdmit
  /-- `decrypt_sem.acquire_owned`. -/
  | acquireDecrypt
  /-- The decrypt closure starts on the blocking pool, with the permit inside. -/
  | spawnBlocking
  | joinBlocking (task : ℕ)
  | v2CachePut (id : String) (result : V2CachedResult)
  | v2CacheGet (id : String)
  | v2SealCachePut (id : String) (result : V2SealCachedResult)
  | v2SealCacheGet (id : String)
  | log (line : LogLine)
  /-- The task of the request panics: there is no answer and nothing after it. -/
  | panic (p : Panic)
  deriving DecidableEq

@[reducible] def Op.Ans : Op → Type
  | newUuid => String
  | utcNow => String
  | keyPairGen => KeyPair
  | nonceGen => FixedBytes 24
  | isAllowedWithPermission _ _ _ => RpcResult Bool
  | isPubliclyAllowed _ _ => RpcResult Bool
  | getCommitment _ _ => RpcResult (FixedBytes 32)
  | getFromCache _ => Option CommitHash
  | putInCache _ _ => Unit
  | evictFromCache _ => Unit
  | getStoredCt _ => HttpReply
  | tryAdmit => Bool
  | dropAdmit => Unit
  | acquireDecrypt => Unit
  | spawnBlocking => ℕ
  | joinBlocking _ => Unit
  | v2CachePut _ _ => Unit
  | v2CacheGet _ => Option V2CachedResult
  | v2SealCachePut _ _ => Unit
  | v2SealCacheGet _ => Option V2SealCachedResult
  | log _ => Unit
  | panic _ => Empty

abbrev sig : Sig := ⟨Op, Op.Ans⟩

/-- Code of the service that runs to its end. -/
abbrev Task (α : Type) := Prog sig α

def perform (o : Op) : Task o.Ans := Prog.call (S := sig) o

/-- Code that can return early with an error of type `ε`. -/
abbrev Attempt (ε α : Type) := ExceptT ε (Prog sig) α

def attempt {ε : Type} (o : Op) : Attempt ε o.Ans := ExceptT.lift (perform o)

/-- A call of a function without effects: its panic ends the task. -/
def Attempt.ofExec {ε α : Type} : Exec ε α → Attempt ε α
  | .ok a => pure a
  | .error (.err e) => throw e
  | .error (.panic p) => do
    let x ← attempt (.panic p)
    nomatch x

/-! ## The process's state -/

/-- What the requests share. Closures on the blocking pool are numbered as they start. -/
structure Shared where
  now : ℕ
  cache : Lru CommitKey CacheEntry
  v2Cache : Lru String V2CachedResult
  v2SealCache : Lru String V2SealCachedResult
  admitPermits : ℕ
  decryptPermits : ℕ
  running : List ℕ
  nextTask : ℕ

namespace Shared

/-- The state as `AppState::new` makes it, with commitments cached in `cache`. -/
def new (now parallelism : ℕ) (cache : Lru CommitKey CacheEntry) : Shared where
  now := now
  cache := cache
  v2Cache := .empty 1000 (Nat.succ_pos 999)
  v2SealCache := .empty 1000 (Nat.succ_pos 999)
  admitPermits := 1000
  decryptPermits := parallelism
  running := []
  nextTask := 0

/-- The two caps, each at least 1. -/
def withConcurrency (s : Shared) (decrypt admission : ℕ) : Shared :=
  { s with decryptPermits := max decrypt 1, admitPermits := max admission 1 }

/-- The cached hash of `key`, if it was read less than `ttl` ago; an older entry is dropped. -/
def getFromCache (ttl : ℕ) (s : Shared) (key : CommitKey) : Option CommitHash × Shared :=
  match s.cache.get key with
  | (none, cache) => (none, { s with cache })
  | (some entry, cache) =>
    if s.now - entry.storedAt < ttl then (some entry.commit, { s with cache })
    else (none, { s with cache := cache.pop key })

def putInCache (s : Shared) (key : CommitKey) (commit : CommitHash) : Shared :=
  { s with cache := s.cache.put key ⟨commit, s.now⟩ }

def evictFromCache (s : Shared) (key : CommitKey) : Shared :=
  { s with cache := s.cache.pop key }

/-- Whether `o`, answered by `x`, can take the state `s` to `s'`. -/
def perform (ttl : ℕ) (s : Shared) : (o : Op) → o.Ans → Shared → Prop
  | .getFromCache key, x, s' => (x, s') = s.getFromCache ttl key
  | .putInCache key commit, _, s' => s' = s.putInCache key commit
  | .evictFromCache key, _, s' => s' = s.evictFromCache key
  | .tryAdmit, x, s' =>
    if 0 < s.admitPermits then x = true ∧ s' = { s with admitPermits := s.admitPermits - 1 }
    else x = false ∧ s' = s
  | .dropAdmit, _, s' => s' = { s with admitPermits := s.admitPermits + 1 }
  | .acquireDecrypt, _, s' =>
    0 < s.decryptPermits ∧ s' = { s with decryptPermits := s.decryptPermits - 1 }
  | .spawnBlocking, x, s' =>
    x = s.nextTask ∧ s' = { s with running := x :: s.running, nextTask := s.nextTask + 1 }
  | .joinBlocking task, _, s' => task ∉ s.running ∧ s' = s
  | .v2CachePut id result, _, s' => s' = { s with v2Cache := s.v2Cache.put id result }
  | .v2CacheGet id, x, s' =>
    x = (s.v2Cache.get id).1 ∧ s' = { s with v2Cache := (s.v2Cache.get id).2 }
  | .v2SealCachePut id result, _, s' =>
    s' = { s with v2SealCache := s.v2SealCache.put id result }
  | .v2SealCacheGet id, x, s' =>
    x = (s.v2SealCache.get id).1 ∧ s' = { s with v2SealCache := (s.v2SealCache.get id).2 }
  | .newUuid, _, s' | .utcNow, _, s' | .keyPairGen, _, s' | .nonceGen, _, s'
  | .isAllowedWithPermission _ _ _, _, s' | .isPubliclyAllowed _ _, _, s'
  | .getCommitment _ _, _, s' | .getStoredCt _, _, s' | .log _, _, s' => s' = s

/-- What happens without any request: time passes, and a closure finishes and frees its permit. -/
inductive Env (s : Shared) : Shared → Prop
  | tick (now : ℕ) (h : s.now ≤ now) : Env s { s with now }
  | finish (task : ℕ) (h : task ∈ s.running) :
      Env s { s with running := s.running.erase task, decryptPermits := s.decryptPermits + 1 }

def isAdmitted : Event sig → Bool
  | ⟨.tryAdmit, true⟩ => true
  | _ => false

def isOp (o : Op) (e : Event sig) : Bool := e.1 = o

/-- A dropped request gives back the permits it holds. One that a closure took along stays with
the closure. -/
def release (s : Shared) (tr : Trace sig) : Shared :=
  { s with
    admitPermits := s.admitPermits + (tr.countP isAdmitted - tr.countP (isOp .dropAdmit))
    decryptPermits :=
      s.decryptPermits + (tr.countP (isOp .acquireDecrypt) - tr.countP (isOp .spawnBlocking)) }

end Shared

/-- The process, with commitments cached for `ttl`. -/
def shared (ttl : ℕ) : Machine sig where
  State := Shared
  perform := fun s o x s' => s.perform ttl o x s'
  env := Shared.Env
  release := Shared.release

end Teecryptor
