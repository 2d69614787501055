import CoinScript.Address
import CoinScript.Fixture
import CoinScript.TestVector
import CoinScript.Proofs.Simulation
import CoinScript.Proofs.Alike
import CoinScript.Proofs.Restriction
import CoinScript.Proofs.Pushes
import CoinScript.Proofs.ScriptHash
import CoinScript.Proofs.WitnessScript
import CoinScript.Proofs.PubKeyHash
import CoinScript.Proofs.Steps
import CoinScript.Proofs.Unlocking
import CoinScript.Proofs.WitnessProgram
import CoinScript.Proofs.Redemption
import CoinScript.Proofs.Footprint
import CoinScript.Proofs.Resources
import CoinScript.Proofs.Plain
import CoinScript.Proofs.Forbidden
import CoinScript.Proofs.Reports
import CoinScript.Proofs.WitnessData
import CoinScript.Proofs.Contracts
import CoinScript.Proofs.BrokenRules
import CoinScript.Proofs.SignatureChecks
import CoinScript.Proofs.Sessions
import CoinScript.Proofs.SoftFork
import CoinScript.Proofs.RoundTrip
import CoinScript.Proofs.MinimalPushes
import CoinScript.Proofs.KeyMatching
import CoinScript.Proofs.Framing
import CoinScript.Proofs.Reencoding
import CoinScript.Proofs.Conditionals
import CoinScript.Proofs.Verifying
import CoinScript.Proofs.Diagrams
import CoinScript.Proofs.CanonicalSignatures
import CoinScript.Proofs.Templates
import CoinScript.Proofs.Addresses
import CoinScript.Proofs.AssemblyText
import CoinScript.Proofs.ShortestPushes
import CoinScript.Proofs.TruthValues
import CoinScript.Proofs.BoundedLists
