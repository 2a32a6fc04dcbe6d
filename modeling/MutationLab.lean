import MutationLab.Code.Builder
import MutationLab.Image.Json
import MutationLab.Main
import MutationLab.Object.Json
import MutationLab.Proofs.Application.Atomicity
import MutationLab.Proofs.Application.Calls
import MutationLab.Proofs.Application.History
import MutationLab.Proofs.Application.Lasting
import MutationLab.Proofs.Application.Layout
import MutationLab.Proofs.Application.Pending
import MutationLab.Proofs.Application.Progress
import MutationLab.Proofs.Application.Reachable
import MutationLab.Proofs.Arithmetic
import MutationLab.Proofs.Ascending
import MutationLab.Proofs.Building.Dangling
import MutationLab.Proofs.Building.History
import MutationLab.Proofs.Building.Resolving
import MutationLab.Proofs.Caching.Entries
import MutationLab.Proofs.Caching.History
import MutationLab.Proofs.Compilation
import MutationLab.Proofs.Coverage
import MutationLab.Proofs.Deciding
import MutationLab.Proofs.Discovery
import MutationLab.Proofs.Encoding
import MutationLab.Proofs.Executing
import MutationLab.Proofs.Files
import MutationLab.Proofs.Hexadecimal
import MutationLab.Proofs.Interleaving
import MutationLab.Proofs.Json.Layout
import MutationLab.Proofs.Json.Printed
import MutationLab.Proofs.Json.Tokens
import MutationLab.Proofs.Limits.Depth
import MutationLab.Proofs.Limits.Watchdog
import MutationLab.Proofs.LinkOrder
import MutationLab.Proofs.Linking
import MutationLab.Proofs.Lockstep
import MutationLab.Proofs.Lookup
import MutationLab.Proofs.Mangling
import MutationLab.Proofs.Merging
import MutationLab.Proofs.Mutants.Building
import MutationLab.Proofs.Mutants.Copying
import MutationLab.Proofs.Mutants.Identity
import MutationLab.Proofs.Mutants.Installed
import MutationLab.Proofs.Mutants.Installing
import MutationLab.Proofs.Mutants.Naming
import MutationLab.Proofs.Mutants.Rewriting
import MutationLab.Proofs.Mutants.Selection
import MutationLab.Proofs.Mutants.Skipping
import MutationLab.Proofs.Mutation
import MutationLab.Proofs.Names
import MutationLab.Proofs.Operators
import MutationLab.Proofs.Panicking
import MutationLab.Proofs.Partitioning
import MutationLab.Proofs.Pipeline.Alignment
import MutationLab.Proofs.Pipeline.Failures
import MutationLab.Proofs.Pipeline.Mutating
import MutationLab.Proofs.Pipeline.Outcome
import MutationLab.Proofs.Pipeline.Survivors
import MutationLab.Proofs.Pipeline.Telling
import MutationLab.Proofs.Pools
import MutationLab.Proofs.Probes
import MutationLab.Proofs.Probing.Bare
import MutationLab.Proofs.Probing.Transparent
import MutationLab.Proofs.Recasting
import MutationLab.Proofs.Reporting
import MutationLab.Proofs.Resolution
import MutationLab.Proofs.Running
import MutationLab.Proofs.Runs
import MutationLab.Proofs.Safety
import MutationLab.Proofs.Saving
import MutationLab.Proofs.Scoring
import MutationLab.Proofs.Selecting
import MutationLab.Proofs.Sessions
import MutationLab.Proofs.Simulation
import MutationLab.Proofs.Testing
import MutationLab.Proofs.Ticking
import MutationLab.Proofs.Tracing
import MutationLab.Proofs.Verdicts
