import Hpack.Main
import Hpack.Proofs.Accounts
import Hpack.Proofs.Accumulator
import Hpack.Proofs.CommandLine.Encode
import Hpack.Proofs.CommandLine.HexText
import Hpack.Proofs.CommandLine.Receive
import Hpack.Proofs.CommandLine.RoundTrip
import Hpack.Proofs.CommandLine.Verbose
import Hpack.Proofs.Flags
import Hpack.Proofs.Handler
import Hpack.Proofs.HeaderField
import Hpack.Proofs.Incremental
import Hpack.Proofs.Movement
import Hpack.Proofs.Queue
import Hpack.Proofs.Session
import Hpack.Proofs.Writing
