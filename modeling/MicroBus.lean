import MicroBus.Attribute.Grammar
import MicroBus.Client.Reachable
import MicroBus.Json.NormalForm
import MicroBus.Main
import MicroBus.Proofs.Attribute.Word
import MicroBus.Proofs.Body.Refused
import MicroBus.Proofs.Client.Closed
import MicroBus.Proofs.Client.InStep
import MicroBus.Proofs.Client.Late
import MicroBus.Proofs.Client.Merged
import MicroBus.Proofs.Client.Numbers
import MicroBus.Proofs.Client.Refused
import MicroBus.Proofs.Command.Output
import MicroBus.Proofs.Frame.Lossless
import MicroBus.Proofs.Json.RoundTrip
import MicroBus.Proofs.Wire.Filler
import MicroBus.Proofs.Wire.Hostile
import MicroBus.Proofs.Wire.InPlace
import MicroBus.Proofs.Wire.OnePass
import MicroBus.Proofs.Wire.Relayed
import MicroBus.Proofs.Wire.Reordered
import MicroBus.Proofs.Wire.RoundTrip
import MicroBus.Proofs.Wire.Unsigned
import MicroBus.Proofs.Wire.Views
import MicroBus.Wire.Filled
import MicroBus.Wire.Received
