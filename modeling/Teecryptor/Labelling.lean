import Teecryptor.Effects
import Teecryptor.Lib.Sink

/-!
# What a request writes into its labels

`DecryptLabels` of `metrics/decrypt.rs`, which a request on the decrypt path fills on its way. The
code of that path is written once, for labels that are kept and for none.
-/

namespace Teecryptor

open Interact

structure DecryptLabels where
  hostChainId : Option UInt64
  acpPresented : Option Bool
  encryptionType : Option EncryptionType
  deriving DecidableEq

namespace DecryptLabels

def default : DecryptLabels := ⟨none, none, none⟩

-- the fields are `OnceLock`s: the first write stays

def setHostChainId (labels : DecryptLabels) (chainId : UInt64) : DecryptLabels :=
  { labels with hostChainId := labels.hostChainId.or (some chainId) }

def setAcpPresented (labels : DecryptLabels) (presented : Bool) : DecryptLabels :=
  { labels with acpPresented := labels.acpPresented.or (some presented) }

def setEncryptionType (labels : DecryptLabels) (ty : EncryptionType) : DecryptLabels :=
  { labels with encryptionType := labels.encryptionType.or (some ty) }

end DecryptLabels

/-- Code that keeps no labels. -/
instance : Sinks DecryptLabels sig (Prog sig) := .none DecryptLabels sig

section

variable {ε α : Type}

@[simp] theorem quiet_plain (x : Attempt ε α) : (quiet x : Attempt ε α) = x := rfl

@[simp] theorem write_plain (f : DecryptLabels → DecryptLabels) :
    (write f : Attempt ε Unit) = pure () := rfl

end

end Teecryptor
