import InstallPolicy.Proofs.AllowedInstallers
import InstallPolicy.Proofs.Document.Canonical

/-!
Every formula that can be had is well formed.

Some ways to make a formula check its parts, and others put parts together that are known to fit.
However they are combined, what comes out is well formed, and so are its children. Judging
or printing it therefore never looks for a child that is not there, and never compares a literal
with a value of another kind.
-/

namespace InstallPolicy

/-! ### Ways to make an atom -/

lemma Atom.wellFormed_named {key : Key} (h : key.kind = .text) (name : String) :
    (Atom.named key name).WellFormed := by
  have hsupports : key.supports .equal = true := by simp [Key.supports]
  unfold Atom.named
  split
  · exact ⟨h.symm, hsupports, fun _ => h⟩
  · exact ⟨h.symm, hsupports, fun _ => h⟩

namespace Formula

lemma wellFormed_version (operator : Operator) (n : Int64) : (version operator n).WellFormed :=
  .atom ⟨rfl, by simp [Key.supports, Key.kind], nofun⟩

lemma wellFormed_entryFormula (name certificate : String) :
    (AllowedInstallers.entryFormula name certificate).WellFormed := by
  have hname : (atom ⟨.installerName, .equal, .text name, false⟩).WellFormed :=
    .atom ⟨rfl, rfl, nofun⟩
  have hcertificate : (atom ⟨.installerCertificate, .equal, .text certificate, false⟩).WellFormed :=
    .atom ⟨rfl, rfl, nofun⟩
  exact .compound (Nat.le_refl 2)
    (List.forall_mem_cons.2 ⟨hname, List.forall_mem_singleton.2 hcertificate⟩)

lemma wellFormed_rule? {m : AllowedInstallers} {r : Rule} (h : m.rule? = some r) :
    r.formula.WellFormed := by
  obtain ⟨f, hf, rfl⟩ := AllowedInstallers.rule?_eq_some h
  apply wellFormed_negate
  rcases AllowedInstallers.formula?_eq_some hf with ⟨e, -, rfl⟩ | ⟨hlength, rfl⟩
  · exact wellFormed_entryFormula e.1 e.2
  · refine .compound ?_ fun g hg => ?_
    · rw [List.length_map]
      exact hlength
    · obtain ⟨e, -, rfl⟩ := List.mem_map.1 hg
      exact wellFormed_entryFormula e.1 e.2

/-! ### All ways to come by a formula -/

/-- The formulas that can be had: what the ways to make atoms and formulas yield, the formulas of
documents and of the rule of the allowed installers, and the children of all of these. -/
inductive Obtainable : Formula → Prop where
  | build {key : Key} {operator : Operator} {literal : Literal} {hashed : Bool} {a : Atom} :
    Atom.build key operator literal hashed = .ok a → Obtainable (.atom a)
  | text {key : Key} {s : String} {hashed : Bool} {a : Atom} :
    Atom.text key s hashed = .ok a → Obtainable (.atom a)
  | integer {key : Key} {operator : Operator} {n : Int64} {a : Atom} :
    Atom.integer key operator n = .ok a → Obtainable (.atom a)
  | boolean {key : Key} {b : Bool} {a : Atom} :
    Atom.boolean key b = .ok a → Obtainable (.atom a)
  | connect {connector : Connector} {children : List Formula} {f : Formula} :
    (∀ g ∈ children, Obtainable g) → connect connector children = .ok f → Obtainable f
  | connectCode {code : Int} {children : List Formula} {f : Formula} :
    (∀ g ∈ children, Obtainable g) → connectCode code children = .ok f → Obtainable f
  | all {children : List Formula} {f : Formula} :
    (∀ g ∈ children, Obtainable g) → all children = .ok f → Obtainable f
  | any {children : List Formula} {f : Formula} :
    (∀ g ∈ children, Obtainable g) → any children = .ok f → Obtainable f
  | negate {f : Formula} : Obtainable f → Obtainable f.negate
  | packageIs (name : String) : Obtainable (packageIs name)
  | appCertificateIs (certificate : String) : Obtainable (appCertificateIs certificate)
  | installerIs (name : String) : Obtainable (installerIs name)
  | installerCertificateIs (certificate : String) : Obtainable (installerCertificateIs certificate)
  | versionIs (n : Int64) : Obtainable (versionIs n)
  | versionAbove (n : Int64) : Obtainable (versionAbove n)
  | versionAtLeast (n : Int64) : Obtainable (versionAtLeast n)
  | preInstalled : Obtainable preInstalled
  | decodeFormula {b : Bytes} {f : Formula} : Document.decodeFormula b = .ok f → Obtainable f
  | decodeRule {b : Bytes} {r : Rule} : Document.decodeRule b = .ok r → Obtainable r.formula
  | decodeRules {b : Bytes} {rules : List Rule} {r : Rule} :
    Document.decodeRules b = .ok rules → r ∈ rules → Obtainable r.formula
  | allowedInstallers {m : AllowedInstallers} {r : Rule} : m.rule? = some r → Obtainable r.formula
  | child {connector : Connector} {children : List Formula} {f : Formula} :
    Obtainable (.compound connector children) → f ∈ children → Obtainable f

lemma wellFormed_of_connect {connector : Connector} {children : List Formula} {f : Formula}
    (hchildren : ∀ g ∈ children, g.WellFormed) (h : connect connector children = .ok f) :
    f.WellFormed := by
  obtain ⟨rfl, hadmits⟩ := connect_eq_ok_iff.1 h
  exact .compound hadmits hchildren

lemma wellFormed_of_connectCode {code : Int} {children : List Formula} {f : Formula}
    (hchildren : ∀ g ∈ children, g.WellFormed) (h : connectCode code children = .ok f) :
    f.WellFormed := by
  unfold connectCode at h
  cases hconnector : Connector.ofCode code with
  | error cause => simp [hconnector, bind, Except.bind] at h
  | ok connector =>
    rw [hconnector] at h
    exact wellFormed_of_connect hchildren h

lemma wellFormed_of_obtainable {f : Formula} (h : Obtainable f) : f.WellFormed := by
  induction h with
  | build h => exact .atom (Atom.build_eq_ok_iff.1 h).2
  | text h => exact .atom (Atom.build_eq_ok_iff.1 h).2
  | integer h => exact .atom (Atom.build_eq_ok_iff.1 h).2
  | boolean h => exact .atom (Atom.build_eq_ok_iff.1 h).2
  | connect _ h ih => exact wellFormed_of_connect ih h
  | connectCode _ h ih => exact wellFormed_of_connectCode ih h
  | all _ h ih => exact wellFormed_of_connect ih h
  | any _ h ih => exact wellFormed_of_connect ih h
  | negate _ ih => exact wellFormed_negate ih
  | packageIs name => exact .atom (Atom.wellFormed_named rfl name)
  | installerIs name => exact .atom (Atom.wellFormed_named rfl name)
  | appCertificateIs certificate => exact .atom ⟨rfl, rfl, nofun⟩
  | installerCertificateIs certificate => exact .atom ⟨rfl, rfl, nofun⟩
  | versionIs n => exact wellFormed_version .equal n
  | versionAbove n => exact wellFormed_version .greater n
  | versionAtLeast n => exact wellFormed_version .greaterOrEqual n
  | preInstalled => exact .atom ⟨rfl, rfl, nofun⟩
  | decodeFormula h => exact (Document.encodeFormula_of_decodeFormula h).1.1
  | decodeRule h => exact (Document.encodeRule_of_decodeRule h).1.1
  | decodeRules h hr => exact ((Document.encodeRules_of_decodeRules h).1 _ hr).1
  | allowedInstallers h => exact wellFormed_rule? h
  | child _ hf ih => exact (wellFormed_compound_iff.1 ih).2 _ hf

end Formula

/-! ### Judging and printing without assumptions -/

/-- Whether an atom holds of a subject; no answer if its literal is of another kind than the
subject's value. -/
def Atom.holds? (a : Atom) (s : Subject) : Option Bool :=
  match a.literal, s.value a.key with
  | .text expected, .text actual =>
    some (if a.hashed then hexDigest (Bytes.ofText actual) == expected else actual == expected)
  | .integer bound, .integer actual => some (a.operator.holds actual bound)
  | .boolean expected, .boolean actual => some (actual == expected)
  | _, _ => none

lemma Atom.holds?_eq_some {a : Atom} (h : a.WellFormed) (s : Subject) :
    a.holds? s = some (a.holds s) := by
  have hkind : a.literal.kind = (s.value a.key).kind := by rw [Subject.kind_value, h.kind]
  unfold Atom.holds? Atom.holds
  revert hkind
  cases a.literal <;> cases s.value a.key <;> simp [Literal.kind]

namespace Formula

mutual

/-- Whether a formula holds of a subject, told from its children from left to right as far as they
matter; no answer if a negation has no child, or an atom gives none. -/
def holds? (s : Subject) : Formula → Option Bool
  | atom a => a.holds? s
  | compound .and children => allHold? s children
  | compound .or children => anyHold? s children
  | compound .not children => (firstHolds? s children).map (!·)

def allHold? (s : Subject) : List Formula → Option Bool
  | [] => some true
  | f :: fs => do if ← holds? s f then allHold? s fs else return false

def anyHold? (s : Subject) : List Formula → Option Bool
  | [] => some false
  | f :: fs => do if ← holds? s f then return true else anyHold? s fs

def firstHolds? (s : Subject) : List Formula → Option Bool
  | [] => none
  | f :: _ => holds? s f

end

mutual

/-- A formula as it is printed; nothing if a negation has no child. -/
def render? : Formula → Option String
  | atom a => some a.render
  | compound .not children => (firstRendered? children).map ("NOT " ++ ·)
  | compound connector children =>
    (renderEach? children).map fun texts =>
      "(" ++ (" " ++ connector.name ++ " ").intercalate texts ++ ")"

def renderEach? : List Formula → Option (List String)
  | [] => some []
  | f :: fs => do return (← render? f) :: (← renderEach? fs)

def firstRendered? : List Formula → Option String
  | [] => none
  | f :: _ => render? f

end

section Children

variable {s : Subject} {fs : List Formula}

lemma allHold?_eq_some (h : ∀ f ∈ fs, f.holds? s = some (f.holds s)) :
    allHold? s fs = some (allHold s fs) := by
  induction fs with
  | nil => rfl
  | cons f fs ih =>
    obtain ⟨hf, hfs⟩ := List.forall_mem_cons.1 h
    rw [allHold?, allHold, hf, ih hfs]
    cases f.holds s <;> rfl

lemma anyHold?_eq_some (h : ∀ f ∈ fs, f.holds? s = some (f.holds s)) :
    anyHold? s fs = some (anyHold s fs) := by
  induction fs with
  | nil => rfl
  | cons f fs ih =>
    obtain ⟨hf, hfs⟩ := List.forall_mem_cons.1 h
    rw [anyHold?, anyHold, hf, ih hfs]
    cases f.holds s <;> rfl

lemma renderEach?_eq_some (h : ∀ f ∈ fs, f.render? = some f.render) :
    renderEach? fs = some (renderEach fs) := by
  induction fs with
  | nil => rfl
  | cons f fs ih =>
    obtain ⟨hf, hfs⟩ := List.forall_mem_cons.1 h
    rw [renderEach?, renderEach, hf, ih hfs]
    rfl

end Children

lemma holds?_eq_some {f : Formula} (h : f.WellFormed) (s : Subject) :
    f.holds? s = some (f.holds s) := by
  induction f with
  | atom a => exact Atom.holds?_eq_some (wellFormed_atom_iff.1 h) s
  | compound connector children ih =>
    obtain ⟨hadmits, hw⟩ := wellFormed_compound_iff.1 h
    have hchildren : ∀ g ∈ children, g.holds? s = some (g.holds s) :=
      fun g hg => ih g hg (hw g hg)
    cases connector with
    | and => rw [holds?, holds, allHold?_eq_some hchildren]
    | or => rw [holds?, holds, anyHold?_eq_some hchildren]
    | not =>
      obtain ⟨g, rfl⟩ := List.length_eq_one_iff.1 hadmits
      have hg := hchildren g List.mem_cons_self
      simp [holds?, holds, firstHolds?, hg]

lemma render?_eq_some {f : Formula} (h : f.WellFormed) : f.render? = some f.render := by
  induction f with
  | atom a => rfl
  | compound connector children ih =>
    obtain ⟨hadmits, hw⟩ := wellFormed_compound_iff.1 h
    have hchildren : ∀ g ∈ children, g.render? = some g.render := fun g hg => ih g hg (hw g hg)
    cases connector with
    | and => rw [render?, render, renderEach?_eq_some hchildren, Option.map_some] <;> nofun
    | or => rw [render?, render, renderEach?_eq_some hchildren, Option.map_some] <;> nofun
    | not =>
      obtain ⟨g, rfl⟩ := List.length_eq_one_iff.1 hadmits
      have hg := hchildren g List.mem_cons_self
      simp [render?, render, firstRendered?, hg, String.join]

/-- **No formula that can be had is ill formed**, at any of its nodes. So judging any subject by it
and printing it come to an answer at every node they visit, and this is the answer of `holds` and
of `render`. -/
theorem obtainable_sound {f : Formula} (h : Obtainable f) :
    f.WellFormed ∧ (∀ s, f.holds? s = some (f.holds s)) ∧ f.render? = some f.render := by
  have hw := wellFormed_of_obtainable h
  exact ⟨hw, holds?_eq_some hw, render?_eq_some hw⟩

/-- A name long enough to stand hashed, a child of what was read from a document, and a negation
over both. -/
theorem obtainable_sound_mixed :
    let document : Bytes := [1, 3, 2, 1, 0, 0, 0, 2, 5, 0, 1]
    let name := "com.example.a.very.long.package.name.that.exceeds"
    let f : Formula := negate (.compound .or [packageIs name, .atom ⟨.preInstalled, .equal,
      .boolean true, false⟩])
    Document.decodeFormula document = .ok (negate preInstalled) ∧
    f.WellFormed ∧ (∀ s, f.holds? s = some (f.holds s)) ∧ f.render? = some f.render := by
  intro document name f
  have hdocument : Document.decodeFormula document = .ok (negate preInstalled) := rfl
  have hchild : Obtainable preInstalled := .child (.decodeFormula hdocument) List.mem_cons_self
  have hor : Obtainable (.compound .or [packageIs name, preInstalled]) :=
    .any (List.forall_mem_cons.2 ⟨.packageIs name, List.forall_mem_singleton.2 hchild⟩) rfl
  exact ⟨hdocument, obtainable_sound (.negate hor)⟩

end Formula

end InstallPolicy
