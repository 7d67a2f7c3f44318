/-! Counters of what a logger did. A counter has 64 bits and starts again at zero after the largest number. -/

namespace Logbook

/-- Messages below the threshold, messages with a decision, decisions with a file, and failed writes of sinks. -/
structure Metrics where
  suppressed : UInt64
  routed : UInt64
  fileWrites : UInt64
  sinkFailures : UInt64
deriving DecidableEq, Repr

namespace Metrics

def zero : Metrics :=
  ⟨0, 0, 0, 0⟩

instance : Inhabited Metrics := ⟨zero⟩

def recordSuppressed (m : Metrics) : Metrics :=
  { m with suppressed := m.suppressed + 1 }

def recordRouted (m : Metrics) : Metrics :=
  { m with routed := m.routed + 1 }

def recordFileWrite (m : Metrics) : Metrics :=
  { m with fileWrites := m.fileWrites + 1 }

def recordSinkFailure (m : Metrics) : Metrics :=
  { m with sinkFailures := m.sinkFailures + 1 }

def submitted (m : Metrics) : UInt64 :=
  m.suppressed + m.routed

/-- The suppressed messages in percent of all, zero before the first message. -/
def suppressionRate (m : Metrics) : Float :=
  if m.submitted = 0 then 0 else m.suppressed.toFloat / m.submitted.toFloat * 100

end Metrics
end Logbook
