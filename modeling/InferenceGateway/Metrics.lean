/-!
# Metrics

What the gateway counts, and how the counters are exported. Everything that is counted is
an event (`Count`); each adds one to one or two counters. The counters are natural numbers:
counters of 64 bits agree with them as long as fewer than `2 ^ 64` events are counted.
-/

namespace InferenceGateway

/-- Something that is counted. -/
inductive Count where
  /-- An invocation was answered at once. -/
  | success
  /-- An invocation was answered with an error. -/
  | failure
  /-- An invocation was answered with a stream. -/
  | stream
  /-- A stream ended with an error. -/
  | streamError
  /-- A configuration was taken over, or refused. -/
  | reload (ok : Bool)
deriving DecidableEq, Repr

/-- The counters. -/
structure Metrics where
  invocations : Nat
  failed : Nat
  streaming : Nat
  streamErrors : Nat
  reloads : Nat
  reloadFailures : Nat
deriving DecidableEq, Repr

namespace Metrics

/-- The counters at the start. -/
def zero : Metrics := ⟨0, 0, 0, 0, 0, 0⟩

/-- Counts one event. -/
def record (m : Metrics) : Count → Metrics
  | .success => { m with invocations := m.invocations + 1 }
  | .failure => { m with invocations := m.invocations + 1, failed := m.failed + 1 }
  | .stream => { m with invocations := m.invocations + 1, streaming := m.streaming + 1 }
  | .streamError => { m with streamErrors := m.streamErrors + 1 }
  | .reload ok => { m with
      reloads := m.reloads + 1
      reloadFailures := m.reloadFailures + if ok then 0 else 1 }

/-- Counts events in order. -/
def recordAll (m : Metrics) (counts : List Count) : Metrics := counts.foldl record m

/-- The counters in the order of export, each with its name and what it counts. -/
def counters (m : Metrics) : List (String × String × Nat) :=
  [("deploygate_invocations_total", "Endpoint invocations", m.invocations),
    ("deploygate_invocations_failed", "Invocations that returned an error", m.failed),
    ("deploygate_streaming_invocations", "Invocations answered with a stream", m.streaming),
    ("deploygate_stream_errors", "Streams terminated by a provider error", m.streamErrors),
    ("deploygate_config_reloads", "Configuration reload attempts", m.reloads),
    ("deploygate_config_reload_failures", "Configuration reloads rejected", m.reloadFailures)]

/-- The lines of one counter. -/
def counterText (counter : String × String × Nat) : String :=
  let (name, help, value) := counter
  "# HELP " ++ name ++ " " ++ help ++ "\n# TYPE " ++ name ++ " counter\n"
    ++ name ++ " " ++ toString value ++ "\n"

/-- The exported text of the counters. -/
def exportText (m : Metrics) : String := String.join (m.counters.map counterText)

end Metrics

end InferenceGateway
