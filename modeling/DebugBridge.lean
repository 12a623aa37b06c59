import DebugBridge.Bridge.Delivery
import DebugBridge.Bridge.Launch
import DebugBridge.Dispatch.Recorder
import DebugBridge.Interpreter.VariableTable
import DebugBridge.Launch
import DebugBridge.Tree.Command
import DebugBridge.Proofs.Suspension
import DebugBridge.Proofs.Promises
import DebugBridge.Proofs.Leftovers
import DebugBridge.Proofs.Stranding
import DebugBridge.Proofs.Footprint
import DebugBridge.Proofs.Draining
import DebugBridge.Proofs.Telling
import DebugBridge.Proofs.Closing
import DebugBridge.Proofs.Recall
import DebugBridge.Proofs.Services
import DebugBridge.Proofs.Ledger
import DebugBridge.Proofs.Conduct
import DebugBridge.Proofs.Stops
import DebugBridge.Proofs.Steps
import DebugBridge.Proofs.Entry
import DebugBridge.Proofs.Watching
import DebugBridge.Proofs.Freshness
import DebugBridge.Proofs.Handling
import DebugBridge.Proofs.Pumping
import DebugBridge.Proofs.Integrity
import DebugBridge.Proofs.Portrait
import DebugBridge.Proofs.Transparency
import DebugBridge.Proofs.Absorption
import DebugBridge.Proofs.Interruption
import DebugBridge.Proofs.Intake
import DebugBridge.Proofs.Numbering
import DebugBridge.Proofs.Descent
import DebugBridge.Proofs.Roundtrip
import DebugBridge.Proofs.Names
import DebugBridge.Proofs.Parentage
import DebugBridge.Proofs.Conversion
import DebugBridge.Proofs.LastThread
import DebugBridge.Proofs.Routing
import DebugBridge.Proofs.Replay
import DebugBridge.Proofs.Records
