import InstallPolicy.Rule

/-!
Verdicts: what a list of rules says of a subject.

A rule that denies prevails over any that allow, wherever they stand in the list, and a subject of
which no rule holds is allowed. A verdict carries the rules that decided it, in list order.
-/

namespace InstallPolicy

/-- Whether an install may go on, and the rules that say so. -/
structure Verdict where
  effect : Effect
  rules : List Rule
  deriving DecidableEq

namespace Verdict

def ofRules (rules : List Rule) (s : Subject) : Verdict :=
  let holding := rules.filter (·.holds s)
  match holding.filter (·.effect == .deny) with
  | [] => ⟨.allow, holding⟩
  | denials => ⟨.deny, denials⟩

def isAllowed (v : Verdict) : Bool := v.effect == .allow

/-- The first of the rules that decided, if there are any. -/
def rule? (v : Verdict) : Option Rule := v.rules.head?

def namesAppCertificate (v : Verdict) : Bool := v.rules.any (·.formula.namesAppCertificate)

def namesInstaller (v : Verdict) : Bool := v.rules.any (·.formula.namesInstaller)

end Verdict

end InstallPolicy
