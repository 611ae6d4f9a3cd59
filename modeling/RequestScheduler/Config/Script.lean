import RequestScheduler.Config
import RequestScheduler.Refusal

/-!
# Scripts that build a configuration

A configuration is built from another one by steps that each set a field. A step that is refused
leaves the configuration as it was.
-/

namespace RequestScheduler.Config

/-- A step of a script. -/
inductive Step where
  | maxConcurrentReads (limit : UInt64)
  | shutdownTimeout (d : Duration)
  | unknown
  deriving DecidableEq, Repr

/-- The answer to a step. -/
inductive Answer where
  | config (c : Config)
  | panic (message : String)
  | refusal (r : RequestScheduler.Refusal)
  deriving DecidableEq, Repr

/-- Carries out a step. -/
def perform (step : Step) (c : Config) : Answer × Config :=
  match step with
  | .maxConcurrentReads limit =>
    match c.withMaxConcurrentReads limit with
    | .ok c => (.config c, c)
    | .error message => (.panic message, c)
  | .shutdownTimeout d =>
    let c := c.withShutdownTimeout d
    (.config c, c)
  | .unknown => (.refusal .badStep, c)

/-- Carries out a script. -/
def run : List Step → Config → List Answer × Config
  | [], c => ([], c)
  | step :: rest, c =>
    let (answer, c) := c.perform step
    let (answers, c) := c.run rest
    (answer :: answers, c)

end RequestScheduler.Config
