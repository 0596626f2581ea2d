import WasmCompiler.Main
import WasmCompiler.Proofs.Layout
import WasmCompiler.Proofs.Progression
import WasmCompiler.Proofs.Placement
import WasmCompiler.Proofs.Structuring
import WasmCompiler.Proofs.WellLinked
import WasmCompiler.Proofs.Acceptance
import WasmCompiler.Proofs.Arrivals
import WasmCompiler.Proofs.Calls
import WasmCompiler.Proofs.Preservation
import WasmCompiler.Proofs.Invocations
import WasmCompiler.Proofs.RoundTrip
import WasmCompiler.Proofs.Bracketing
import WasmCompiler.Proofs.Histories
import WasmCompiler.Proofs.Immutability
import WasmCompiler.Proofs.Truncation
import WasmCompiler.Proofs.Diagnostics
import WasmCompiler.Proofs.Headroom
import WasmCompiler.Proofs.IndexSpaces
import WasmCompiler.Proofs.Transparency
import WasmCompiler.Proofs.Patching
import WasmCompiler.Proofs.Accesses
import WasmCompiler.Proofs.Accounting
import WasmCompiler.Proofs.Lowering
import WasmCompiler.Proofs.Windows
import WasmCompiler.Proofs.Segments
import WasmCompiler.Proofs.BranchForms
import WasmCompiler.Proofs.Listings
import WasmCompiler.Proofs.OpenBlocks
