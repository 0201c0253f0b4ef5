import InstallPolicy.AllowedInstallers
import InstallPolicy.Store.Source
import InstallPolicy.Verdict

/-!
Judging installs: the rules of a source and the rule of the allowed installers are put together
and give a verdict. A source that fails is as good as one without rules, but this is told.
-/

namespace InstallPolicy

/-- A verdict, and what was told on the way to it. -/
structure Assessment where
  verdict : Verdict
  events : List Event

namespace Reading

/-- The rules to go by: none if the source failed. -/
def rulesOrNone (reading : Reading) : List Rule := reading.rules.toOption.getD []

def failure (reading : Reading) (s : Subject) : List Event :=
  match reading.rules with
  | .ok _ => []
  | .error cause => [.loadingFailed s.packageName cause]

def assess (reading : Reading) (s : Subject) (allowed : AllowedInstallers) : Assessment :=
  let rules := reading.rulesOrNone ++ allowed.rule?.toList
  let verdict := Verdict.ofRules rules s
  ⟨verdict, reading.events ++ reading.failure s ++
    [.evaluated s.packageName rules.length allowed.rule?.isSome verdict.effect]⟩

end Reading

structure Engine where
  source : RuleSource
  /-- How often the source has been asked. -/
  reads : Nat := 0

namespace Engine

def read (engine : Engine) (s : Subject) : Reading × Engine :=
  (engine.source s, { engine with reads := engine.reads + 1 })

/-- Judges a subject, for which the source is asked once. -/
def evaluate (engine : Engine) (s : Subject) (allowed : AllowedInstallers) :
    Assessment × Engine :=
  let (reading, engine) := engine.read s
  (reading.assess s allowed, engine)

end Engine

/-! ### The shared engine -/

/-- The engine that all callers share, once one of them has made it. -/
structure SharedEngine where
  engine? : Option Engine := none
  /-- How often an engine has been made. -/
  creations : Nat := 0

/-- What a caller of the shared engine gets: the engine, the state after the call, whether the
engine was made for this caller, and what was told. -/
structure Obtained where
  engine : Engine
  shared : SharedEngine
  created : Bool
  events : List Event

/-- The shared engine. The first caller makes it from its source; the sources of later callers
are not looked at. -/
def SharedEngine.obtain (shared : SharedEngine) (source : Unit → RuleSource) : Obtained :=
  match shared.engine? with
  | some engine => ⟨engine, shared, false, []⟩
  | none =>
    let engine : Engine := ⟨source (), 0⟩
    ⟨engine, ⟨some engine, shared.creations + 1⟩, true, [.engineCreated]⟩

end InstallPolicy
