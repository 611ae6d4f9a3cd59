import RequestScheduler.Config

/-!
# Writing a configuration

In TOML, a configuration is one line per field, and an absent bound has no line. In JSON it is one
object without blanks, and an absent bound is null.
-/

namespace RequestScheduler.Config

/-- A field on a line of its own. -/
def line (key : String) (n : UInt64) : String := key ++ " = " ++ toString n.toNat ++ "\n"

/-- A configuration in TOML. -/
def toToml (c : Config) : String :=
  let reads := match c.maxConcurrentReads with
    | none => ""
    | some n => line readsKey n
  reads ++ line timeoutKey c.shutdownTimeoutMs

/-- A configuration in JSON. -/
def toJson (c : Config) : String :=
  let reads := match c.maxConcurrentReads with
    | none => "null"
    | some n => toString n.toNat
  "\x7b\"" ++ readsKey ++ "\":" ++ reads ++ ",\"" ++ timeoutKey ++ "\":" ++
    toString c.shutdownTimeoutMs.toNat ++ "\x7d"

end RequestScheduler.Config
