import InstallPolicy.Formula.Atom

/-!
Formulas: trees with atoms at the leaves and connectors above them.

The type holds any such tree. `Formula.WellFormed` says that every connector has a number of
children that it admits and that every atom is well formed; `Formula.connect` is the way to join
formulas that keeps this so.
-/

namespace InstallPolicy

/-- An atom, or a connector over formulas in order. -/
inductive Formula where
  | atom (a : Atom)
  | compound (connector : Connector) (children : List Formula)

namespace Formula

/-- **Induction on formulas**: what holds of every atom, and of a compound whenever it holds of
all its children, holds of every formula. -/
@[elab_as_elim, induction_eliminator]
theorem induction {motive : Formula → Prop} (atom : ∀ a, motive (.atom a))
    (compound : ∀ connector children, (∀ f ∈ children, motive f) →
      motive (.compound connector children)) : ∀ f, motive f :=
  fun f => Formula.rec (motive_1 := motive) (motive_2 := fun fs => ∀ f ∈ fs, motive f)
    atom compound (fun _ h => nomatch h)
    (fun f fs hf hfs g hg => by
      rcases List.mem_cons.1 hg with rfl | hg
      · exact hf
      · exact hfs g hg) f

/-! ### Equality -/

mutual

def decideEq : (f g : Formula) → Decidable (f = g)
  | atom a, atom b => decidable_of_iff (a = b) (by simp)
  | compound c fs, compound d gs =>
    match decEq c d, decideEqAll fs gs with
    | .isTrue hc, .isTrue hf => .isTrue (by rw [hc, hf])
    | .isFalse hc, _ => .isFalse fun h => hc (by injection h)
    | _, .isFalse hf => .isFalse fun h => hf (by injection h)
  | atom _, compound _ _ => .isFalse nofun
  | compound _ _, atom _ => .isFalse nofun

def decideEqAll : (fs gs : List Formula) → Decidable (fs = gs)
  | [], [] => .isTrue rfl
  | f :: fs, g :: gs =>
    match decideEq f g, decideEqAll fs gs with
    | .isTrue hf, .isTrue hfs => .isTrue (by rw [hf, hfs])
    | .isFalse hf, _ => .isFalse fun h => hf (by injection h)
    | _, .isFalse hfs => .isFalse fun h => hfs (by injection h)
  | [], _ :: _ => .isFalse nofun
  | _ :: _, [] => .isFalse nofun

end

instance : DecidableEq Formula := decideEq

/-! ### Well formed formulas -/

/-- Every atom is well formed and every connector admits its number of children. -/
inductive WellFormed : Formula → Prop where
  | atom {a : Atom} : a.WellFormed → WellFormed (.atom a)
  | compound {connector : Connector} {children : List Formula} :
    connector.Admits children.length → (∀ f ∈ children, WellFormed f) →
    WellFormed (.compound connector children)

/-- The compound of `children`, unless their number is not admitted. -/
def connect (connector : Connector) (children : List Formula) : Except FormulaError Formula :=
  if connector.Admits children.length then .ok (.compound connector children)
  else .error (connector.arityError children.length)

def connectCode (code : Int) (children : List Formula) : Except FormulaError Formula := do
  connect (← Connector.ofCode code) children

theorem connect_eq_ok_iff {connector : Connector} {children : List Formula} {f : Formula} :
    connect connector children = .ok f ↔
      f = .compound connector children ∧ connector.Admits children.length := by
  unfold connect
  split
  · exact ⟨fun h => ⟨(Except.ok.inj h).symm, ‹_›⟩, fun h => h.1 ▸ rfl⟩
  · exact ⟨nofun, fun h => absurd h.2 ‹_›⟩

/-! ### Ways to make a formula -/

def all (children : List Formula) : Except FormulaError Formula := connect .and children

def any (children : List Formula) : Except FormulaError Formula := connect .or children

def negate (f : Formula) : Formula := .compound .not [f]

def packageIs (name : String) : Formula := .atom (.named .packageName name)

def appCertificateIs (certificate : String) : Formula :=
  .atom ⟨.appCertificate, .equal, .text certificate, false⟩

def installerIs (name : String) : Formula := .atom (.named .installerName name)

def installerCertificateIs (certificate : String) : Formula :=
  .atom ⟨.installerCertificate, .equal, .text certificate, false⟩

def version (operator : Operator) (n : Int64) : Formula :=
  .atom ⟨.versionCode, operator, .integer n, false⟩

def versionIs (n : Int64) : Formula := version .equal n

def versionAbove (n : Int64) : Formula := version .greater n

def versionAtLeast (n : Int64) : Formula := version .greaterOrEqual n

def preInstalled : Formula := .atom ⟨.preInstalled, .equal, .boolean true, false⟩

/-! ### Leaves -/

mutual

/-- Whether some atom of the formula has a property. -/
def anyAtom (p : Atom → Bool) : Formula → Bool
  | atom a => p a
  | compound _ children => anyAtomOf p children

def anyAtomOf (p : Atom → Bool) : List Formula → Bool
  | [] => false
  | f :: fs => anyAtom p f || anyAtomOf p fs

end

@[simp] theorem anyAtomOf_eq (p : Atom → Bool) (fs : List Formula) :
    anyAtomOf p fs = fs.any (anyAtom p) := by
  induction fs with
  | nil => rfl
  | cons f fs ih => simp [anyAtomOf, ih]

def namesAppCertificate (f : Formula) : Bool := f.anyAtom fun a => a.key == .appCertificate

/-- Whether the formula looks at the subject's installer or at its certificate. -/
def namesInstaller (f : Formula) : Bool :=
  f.anyAtom fun a => a.key == .installerName || a.key == .installerCertificate

/-! ### Printing -/

mutual

/-- A formula as it is printed: a negation before its child, other compounds in brackets with the
connector between the children. -/
def render : Formula → String
  | atom a => a.render
  | compound .not children => "NOT " ++ String.join (renderEach children)
  | compound connector children =>
    "(" ++ (" " ++ connector.name ++ " ").intercalate (renderEach children) ++ ")"

def renderEach : List Formula → List String
  | [] => []
  | f :: fs => render f :: renderEach fs

end

@[simp] theorem renderEach_eq (fs : List Formula) : renderEach fs = fs.map render := by
  induction fs with
  | nil => rfl
  | cons f fs ih => simp [renderEach, ih]

end Formula

end InstallPolicy
