import Provsan.Lib.BitField
import Provsan.Lib.Restart
import Provsan.Runtime.ReallocChain
import Provsan.Runtime.Pkru
import Provsan.Runtime.Stepping
import Provsan.Runtime.FaultSequence
import Provsan.Runtime.Machine
import Provsan.Runtime.PageMode
import Provsan.Runtime.Concurrent
import Provsan.Runtime.Lookup
import Provsan.Runtime.FaultOrigin
import Provsan.Runtime.Compartments
import Provsan.Runtime.Signals
import Provsan.Lib.Locks
import Provsan.Runtime.Locking
import Provsan.Runtime.Independent
import Provsan.Passes.IR
import Provsan.Passes.Pre
import Provsan.Passes.Rewrite
import Provsan.Passes.Exec
import Provsan.Passes.Process
import Provsan.Passes.Hooked
import Provsan.Passes.LocalIDs
import Provsan.Lib.CxxString
import Provsan.Passes.Options
import Provsan.Passes.Report
import Provsan.Passes.Reader
import Provsan.Passes.Layout
import Provsan.Passes.Matching
import Provsan.Passes.Removal
import Provsan.Passes.Linking
import Provsan.EndToEnd.RoundTrip
import Provsan.EndToEnd.Execution
import Provsan.EndToEnd.Provenance
import Provsan.EndToEnd.Campaign
import Provsan.EndToEnd.Audit
import Provsan.Runtime.Formatter
import Provsan.Runtime.ProfileFiles
import Provsan.Lib.Simulation
import Provsan.Passes.Equivalence
import Provsan.Passes.Preservation
import Provsan.Lib.Atomic
import Provsan.Runtime.Atomicity
import Provsan.Runtime.Attribution
import Provsan.Passes.Rerun
import Provsan.Passes.Statistics
