import SyntheticRows.Main
import SyntheticRows.Position.Json
import SyntheticRows.Preview
import SyntheticRows.Proofs.Arguments.Order
import SyntheticRows.Proofs.Config.Layers
import SyntheticRows.Proofs.Config.Refusal
import SyntheticRows.Proofs.Framing.Accounting
import SyntheticRows.Proofs.Framing.Opening
import SyntheticRows.Proofs.Json.RoundTrip
import SyntheticRows.Proofs.Json.Strictness
import SyntheticRows.Proofs.Pass.Ranges
import SyntheticRows.Proofs.Position.Decoding
import SyntheticRows.Proofs.Position.Prices
import SyntheticRows.Proofs.Position.RoundTrip
import SyntheticRows.Proofs.Preview
import SyntheticRows.Proofs.Program.Outcome
import SyntheticRows.Proofs.Run.Counters
import SyntheticRows.Proofs.Run.Delivery
import SyntheticRows.Proofs.Run.Independence
import SyntheticRows.Proofs.Run.Modes
import SyntheticRows.Proofs.Run.Refusal
import SyntheticRows.Proofs.Run.Replay
import SyntheticRows.Proofs.Run.Statements
import SyntheticRows.Proofs.Seed
import SyntheticRows.Reading.Json
import SyntheticRows.Sink.Limited
import SyntheticRows.Sink.Scripted
import SyntheticRows.Workspace
