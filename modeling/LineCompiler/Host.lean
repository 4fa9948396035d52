/-!
# Hosts

The systems that the tools can run on, with what depends on them.
-/

namespace LineCompiler

/-- The systems that the tools can run on. -/
inductive Host where
  | windows | linux
  deriving DecidableEq

/-- The number of a system. -/
def Host.number : Host → Nat
  | .windows => 1
  | .linux => 2

/-- The mark between the parts of a path. -/
def Host.separator : Host → String
  | .windows => "\\"
  | .linux => "/"

/-- The system that the tools run on. -/
def Host.current : Host := .linux

end LineCompiler
