/-! # Call traces

The probes that a run has passed, each with the least call depth at which it was
passed, in the order of their numbers. -/

namespace MutationLab

/-- Probes with depths, ascending in the probes, each once. -/
abbrev Trace := List (UInt32 × UInt32)

namespace Trace

/-- Record that a probe was passed at a depth. -/
def record (probe depth : UInt32) : Trace → Trace
  | [] => [(probe, depth)]
  | (p, d) :: hits =>
      if probe = p then (p, min d depth) :: hits
      else if probe < p then (probe, depth) :: (p, d) :: hits
      else (p, d) :: record probe depth hits

end Trace

end MutationLab
