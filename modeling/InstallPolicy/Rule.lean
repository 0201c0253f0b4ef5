import InstallPolicy.Formula.Matching

/-!
Rules: an effect for the installs that a formula holds of.
-/

namespace InstallPolicy

/-- A formula and what becomes of the installs that it holds of. -/
structure Rule where
  formula : Formula
  effect : Effect
  deriving DecidableEq

namespace Rule

def holds (r : Rule) (s : Subject) : Bool := r.formula.holds s

def render (r : Rule) : String := "Rule: " ++ r.formula.render ++ ", " ++ r.effect.name

end Rule

end InstallPolicy
