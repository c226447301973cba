import Lumix.Lib.Exec
import Lumix.Lib.Run
import Lumix.Lib.Digits
import Lumix.Lib.Greedy
import Lumix.Lib.Interpolation
import Lumix.Lib.Merkle
import Lumix.Basic.Word
import Lumix.Contracts.Host
import Lumix.Contracts.NullifierRegistry
import Lumix.Contracts.ProofVerifier
import Lumix.Contracts.LeanIMT
import Lumix.Circuits.Poseidon255
import Lumix.Circuits.Gadgets
import Lumix.Circuits.Notes
import Lumix.Circuits.Conservation
import Lumix.Circuits.Mpc
import Lumix.Pool.State
import Lumix.Pool.Entrypoints
import Lumix.Pool.Effects
import Lumix.Pool.System
import Lumix.Pool.Decoding
import Lumix.Pool.DoubleSpend
import Lumix.Pool.Committee
import Lumix.Pool.Deposits
import Lumix.Pool.Nullifiers
import Lumix.Pool.Payouts
import Lumix.Pool.Reserves
import Lumix.Lib.Tally
import Lumix.Pool.Solvency
import Lumix.Pool.Underflow
import Lumix.Pool.Testnet
import Lumix.Pool.Guarded
import Lumix.Contracts.TreeRuns
import Lumix.Contracts.TreeStorage
import Lumix.Contracts.GovernanceGuardian
import Lumix.Contracts.GuardianRuns
import Lumix.Contracts.GuardianSafety
import Lumix.Contracts.GuardianRoles
import Lumix.Pool.Roots
import Lumix.Pool.Replay
import Lumix.Pool.Quorum
import Lumix.Pool.Rfq
import Lumix.Pool.Batches
import Lumix.Circuits.Compliance
import Lumix.Proving.Compliance
import Lumix.Lib.OrderedMap
import Lumix.Lib.Primality
import Lumix.Committee.State
import Lumix.Committee.Matching
import Lumix.Committee.Priced
import Lumix.Committee.Groups
import Lumix.Committee.Maximal
import Lumix.Lib.Lines
import Lumix.Committee.Facing
import Lumix.Committee.Round
import Lumix.Committee.Server
import Lumix.Committee.Protocol
import Lumix.Committee.Sessions
import Lumix.Committee.Intents
import Lumix.Committee.Keys
import Lumix.Committee.KeyLoading
import Lumix.Committee.Shamir
import Lumix.Committee.Reconstruction
import Lumix.Committee.Secrecy
import Lumix.Committee.Outcome
import Lumix.Committee.Hygiene
import Lumix.Committee.Quorum
import Lumix.Committee.Intake
import Lumix.Lib.Program
import Lumix.Lib.Solo
import Lumix.Services.Database
import Lumix.Services.Queue
import Lumix.Services.Settlement
import Lumix.Services.Enqueue
import Lumix.Services.Footprint
import Lumix.Services.Workers
import Lumix.Services.Settler
import Lumix.Services.Tables
import Lumix.Committee.Batches
import Lumix.Services.Persistence
import Lumix.Services.Records
import Lumix.Services.Routing
import Lumix.Lib.Text
import Lumix.Proving.MpcSettlement
import Lumix.Contracts.Cursor
import Lumix.Proving.MpcPriced
import Lumix.Proving.Circom2Soroban
import Lumix.Proving.HashFields
import Lumix.Proving.SwapTerms
import Lumix.Services.Relayer
import Lumix.Services.Rfq
import Lumix.Services.Desk
import Lumix.Services.Acceptances
import Lumix.Services.Gate
import Lumix.Lib.Statement
import Lumix.Services.Vaults
import Lumix.Services.Ownership
import Lumix.Services.Readiness
import Lumix.Services.Inbound
import Lumix.Services.Attempts
import Lumix.Services.Retries
import Lumix.Lib.Interference
import Lumix.Services.Credits
import Lumix.Lib.Json
import Lumix.Services.Reports
import Lumix.Auditor.Audit
import Lumix.Auditor.Events
import Lumix.Auditor.Honest
import Lumix.Committee.Inverse
import Lumix.Circuits.MerkleProof
import Lumix.Services.Recovery
import Lumix.NoteVault.Notes
import Lumix.Lib.Tree
import Lumix.Lib.TreeText
import Lumix.Lib.Js
import Lumix.Services.StableStringify
import Lumix.NoteVault.Plaintext
import Lumix.Lib.StableSort
import Lumix.Lib.JsonParse
import Lumix.Lib.Utf8
import Lumix.Lib.BigInt
import Lumix.Committee.BatchHash
import Lumix.Committee.Package
import Lumix.Committee.TrueAmounts
import Lumix.Committee.OpenSessions
import Lumix.Services.Verification
import Lumix.Services.Sealing
import Lumix.Services.SealedRuns
import Lumix.Contracts.CommitmentTree
import Lumix.Contracts.Vault
import Lumix.Contracts.VerifyingKey
import Lumix.Lib.Numbered
import Lumix.Pool.Verified
import Lumix.Services.Nonces
import Lumix.Services.SigningIn
import Lumix.Services.LoggingOut
import Lumix.Lib.HashChain
import Lumix.Services.WalletAuth
import Lumix.Services.BurnJobs
