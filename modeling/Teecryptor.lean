import Teecryptor.Lib.Budget
import Teecryptor.Lib.Bytes
import Teecryptor.Lib.Cells
import Teecryptor.Lib.Ecdsa
import Teecryptor.Lib.Keyed
import Teecryptor.Lib.Lru
import Teecryptor.Lib.Lwe
import Teecryptor.Lib.Packing
import Teecryptor.Lib.Permits
import Teecryptor.Lib.Prog
import Teecryptor.Lib.Progress
import Teecryptor.Lib.Rust
import Teecryptor.Lib.Sink
import Teecryptor.Lib.System
import Teecryptor.Lib.Text
import Teecryptor.Lib.World
import Teecryptor.Acp
import Teecryptor.Boot
import Teecryptor.Commitment
import Teecryptor.CtSource
import Teecryptor.Decrypt
import Teecryptor.DirectDecrypt
import Teecryptor.Effects
import Teecryptor.EnvPolicy
import Teecryptor.FetchDecrypt
import Teecryptor.Gates
import Teecryptor.Handlers
import Teecryptor.Health
import Teecryptor.Http
import Teecryptor.Keys
import Teecryptor.Labelling
import Teecryptor.Labels
import Teecryptor.Otlp
import Teecryptor.Permit
import Teecryptor.Push
import Teecryptor.Router
import Teecryptor.Seal
import Teecryptor.Signing
import Teecryptor.Proofs.AcpWire
import Teecryptor.Proofs.Alerting
import Teecryptor.Proofs.Answers
import Teecryptor.Proofs.Attestation
import Teecryptor.Proofs.Authentic
import Teecryptor.Proofs.BodyCap
import Teecryptor.Proofs.Boot
import Teecryptor.Proofs.Cache
import Teecryptor.Proofs.Concurrency
import Teecryptor.Proofs.Decode
import Teecryptor.Proofs.Deployed
import Teecryptor.Proofs.Encoding
import Teecryptor.Proofs.Events
import Teecryptor.Proofs.Federation
import Teecryptor.Proofs.FetchDecrypt
import Teecryptor.Proofs.GateTable
import Teecryptor.Proofs.Handles
import Teecryptor.Proofs.Health
import Teecryptor.Proofs.HostileBlock
import Teecryptor.Proofs.Labels
import Teecryptor.Proofs.Load
import Teecryptor.Proofs.Lookups
import Teecryptor.Proofs.LowS
import Teecryptor.Proofs.Metrics
import Teecryptor.Proofs.OtlpSplit
import Teecryptor.Proofs.Polling
import Teecryptor.Proofs.Progress
import Teecryptor.Proofs.Push
import Teecryptor.Proofs.Recipient
import Teecryptor.Proofs.Resolution
import Teecryptor.Proofs.Routes
import Teecryptor.Proofs.Runs
import Teecryptor.Proofs.Sealed
import Teecryptor.Proofs.Series
import Teecryptor.Proofs.ServedChains
import Teecryptor.Proofs.Soundness
import Teecryptor.Proofs.Spellings
import Teecryptor.Proofs.StaleHash
import Teecryptor.Proofs.Statements
import Teecryptor.Proofs.TwoRuns
import Teecryptor.Proofs.Versions
import Teecryptor.Proofs.Warm
import Teecryptor.Proofs.WarnOnly
import Teecryptor.Proofs.Width
import Teecryptor.Proofs.WriteOnce
