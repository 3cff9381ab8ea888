import PipelineEngine.Text.Numeral
import PipelineEngine.Value.Basic

/-!
# Provider failures

Why the provider of a step gave no output.  Timeouts and unreachable backends are
transient; every other failure is final.
-/

namespace PipelineEngine

/-- Why a provider gave no output. -/
inductive ProviderFailure where
  /-- The attempt took longer than the given number of seconds. -/
  | timeout (step : String) (seconds : Nat)
  | unreachable (step message : String)
  /-- The provider said that it failed, maybe with structured output. -/
  | failed (step : String) (exitCode : Option Int) (message : String) (output : Option Value)
  | unsupported (step provider : String)
  | cancelled (step : String)
deriving Inhabited

namespace ProviderFailure

/-- A timeout as messages write it. -/
def secondsText (seconds : Nat) : String :=
  if seconds = 0 then "0ns" else Numeral.decimal seconds ++ "s"

def message : ProviderFailure → String
  | .timeout step seconds => "Step '" ++ step ++ "' timed out after " ++ secondsText seconds
  | .unreachable step message =>
    "Provider for step '" ++ step ++ "' is unreachable: " ++ message
  | .failed step _ message _ => "Step '" ++ step ++ "' failed: " ++ message
  | .unsupported step provider =>
    "No provider can run '" ++ provider ++ "' for step '" ++ step ++ "'"
  | .cancelled step => "Step '" ++ step ++ "' was cancelled"

/-- Whether another attempt may succeed. -/
def isTransient : ProviderFailure → Bool
  | .timeout .. => true
  | .unreachable .. => true
  | _ => false

def isCancelled : ProviderFailure → Bool
  | .cancelled _ => true
  | _ => false

/-- The structured output that came with the failure. -/
def output? : ProviderFailure → Option Value
  | .failed _ _ _ output => output
  | _ => none

end ProviderFailure

end PipelineEngine
