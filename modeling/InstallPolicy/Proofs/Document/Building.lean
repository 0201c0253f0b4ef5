import InstallPolicy.Proofs.Document.RoundTrip

/-!
Reading a tree is building it.

The format has bytes for trees that are not well formed as well: with any number of children under
any connector, any literal under any key and operator, and any text hashed. From the bytes of such a
tree, reading makes what comes of building it out of its parts, children from left to right and each
compound after its children.
-/

namespace InstallPolicy

open Document

/-! ### Building a tree -/

namespace Formula

mutual

/-- The formula that is built of the parts of a tree, or what is wrong with the first part that is
refused. -/
def build : Formula → Except FormulaError Formula
  | atom a => atom <$> Atom.build a.key a.operator a.literal a.hashed
  | compound connector children => do
    let children ← buildAll children
    connect connector children

def buildAll : List Formula → Except FormulaError (List Formula)
  | [] => .ok []
  | f :: fs => do
    let f ← build f
    let fs ← buildAll fs
    return f :: fs

end

@[simp] lemma buildAll_eq (fs : List Formula) : buildAll fs = fs.mapM build := by
  induction fs with
  | nil => rfl
  | cons f fs ih => rw [buildAll, ih, List.mapM_cons]

/-- A tree that a document can hold. It has no place for the mark that a literal stands hashed,
except behind a text. -/
structure Representable (f : Formula) : Prop where
  limits : f.WithinLimits
  fields : f.FitsFields
  hashed : ∀ a ∈ f.leaves, a.hashed = true → a.literal.kind = .text

end Formula

def Rule.build (r : Rule) : Except FormulaError Rule := (Rule.mk · r.effect) <$> r.formula.build

namespace Document

open Reader

/-! ### Checking and building -/

lemma mapM_mapError {α ε ε' : Type} {x : α → Except ε α} {y : α → Except ε' α} {g : ε' → ε}
    {as : List α} (h : ∀ a ∈ as, x a = (y a).mapError g) :
    as.mapM x = (as.mapM y).mapError g := by
  induction as with
  | nil => rfl
  | cons a as ih =>
    obtain ⟨ha, has⟩ := List.forall_mem_cons.1 h
    rw [List.mapM_cons, List.mapM_cons, ha, ih has]
    cases y a with
    | error e => rfl
    | ok b => cases as.mapM y <;> rfl

lemma check_atom_eq_build {a : Atom}
    (htext : ∀ s, a.literal = .text s → (Bytes.ofText s).length ≤ maxTextBytes)
    (hhashed : a.hashed = true → a.literal.kind = .text) :
    a.check = (Atom.build a.key a.operator a.literal a.hashed).mapError .formula := by
  obtain ⟨key, operator, literal, hashed⟩ := a
  cases literal with
  | text s => rw [Atom.check, if_pos (htext s rfl)]
  | integer n =>
    obtain rfl : hashed = false := by simpa [Literal.kind] using hhashed
    rfl
  | boolean b =>
    obtain rfl : hashed = false := by simpa [Literal.kind] using hhashed
    rfl

/-- Within the limits the check of a tree makes no other refusals than building it does. -/
lemma check_eq_build {levels : ℕ} {f : Formula} (hdepth : f.depth ≤ levels)
    (htexts : ∀ a ∈ f.leaves, ∀ s, a.literal = .text s → (Bytes.ofText s).length ≤ maxTextBytes)
    (hhashed : ∀ a ∈ f.leaves, a.hashed = true → a.literal.kind = .text) :
    f.check levels = f.build.mapError .formula := by
  induction f generalizing levels with
  | atom a =>
    have hmem : a ∈ (Formula.atom a).leaves := List.mem_singleton.2 rfl
    have ha := check_atom_eq_build (htexts a hmem) (hhashed a hmem)
    have hcheck : (Formula.atom a).check levels = Formula.atom <$> a.check := by
      cases levels <;> rfl
    rw [hcheck, ha, Formula.build]
    cases Atom.build a.key a.operator a.literal a.hashed <;> rfl
  | compound c fs ih =>
    obtain ⟨levels, rfl⟩ : ∃ n, levels = n + 1 :=
      ⟨levels - 1, by rw [Formula.depth] at hdepth; omega⟩
    have hdepths := Formula.depthOf_le_iff.1 (Nat.le_of_succ_le_succ hdepth)
    have hleaves : ∀ f ∈ fs, ∀ a ∈ f.leaves, a ∈ (Formula.compound c fs).leaves :=
      fun f hf a ha => Formula.mem_leaves_compound.2 ⟨f, hf, ha⟩
    have hchildren : fs.mapM (Formula.check levels) = (fs.mapM Formula.build).mapError .formula :=
      mapM_mapError fun f hf => ih f hf (hdepths f hf) (fun a ha => htexts a (hleaves f hf a ha))
        fun a ha => hhashed a (hleaves f hf a ha)
    rw [Formula.check, hchildren, Formula.build, Formula.buildAll_eq]
    cases fs.mapM Formula.build <;> rfl

lemma check_of_representable {f : Formula} (h : f.Representable) :
    f.check maxDepth = f.build.mapError .formula :=
  check_eq_build h.limits.depth h.limits.texts h.hashed

lemma check_rule_of_representable {r : Rule} (h : r.formula.Representable) :
    r.check = r.build.mapError .formula := by
  rw [Rule.check, check_of_representable h, Rule.build]
  cases r.formula.build <;> rfl

/-! ### Documents -/

/-- **What is read is what can be built**: of any tree that a document can hold, well formed or
not, and likewise of rules and of lists of them, where the first rule that cannot be built
decides. -/
theorem decode_eq_build :
    (∀ f : Formula, f.Representable →
      decodeFormula (formulaDocument f) = f.build.mapError .formula) ∧
    (∀ r : Rule, r.formula.Representable →
      decodeRule (ruleDocument r) = r.build.mapError .formula) ∧
    ∀ rs : List Rule, rs.length < UInt32.size → (∀ r ∈ rs, r.formula.Representable) →
      decodeRules (ruleListDocument rs) = (rs.mapM Rule.build).mapError .formula := by
  refine ⟨fun f h => ?_, fun r h => ?_, fun rs hlength h => ?_⟩
  · have hread := reads_formulaDocument counts_count h.fields
    rw [decodeFormula, hread.run, check_of_representable h]
  · have hread := reads_ruleDocument counts_count h.fields
    rw [decodeRule, hread.run, check_rule_of_representable h]
  · have hread := reads_ruleListDocument counts_count hlength fun r hr => (h r hr).fields
    rw [decodeRules, hread.run]
    exact mapM_mapError fun r hr => check_rule_of_representable (h r hr)

lemma representable_of_violation? {f : Formula} (hv : f.violation? 0 = none)
    (hhashed : ∀ a ∈ f.leaves, a.hashed = true → a.literal.kind = .text) : f.Representable :=
  ⟨.of_violation? hv, fitsFields_of_violation? hv, hhashed⟩

/-- A negation of two atoms, of which the second is refused before the negation is looked at, and a
list in which a conjunction of nothing comes before that negation. -/
theorem decode_eq_build_first :
    let negation : Formula :=
      .compound .not [.preInstalled, .atom ⟨.versionCode, .less, .text "1", true⟩]
    let rules : List Rule :=
      [⟨.preInstalled, .deny⟩, ⟨.compound .and [], .allow⟩, ⟨negation, .deny⟩]
    decodeFormula (formulaDocument negation) = .error (.formula (.valueTypeMismatch .versionCode)) ∧
    decodeRule (ruleDocument ⟨negation, .deny⟩) =
      .error (.formula (.valueTypeMismatch .versionCode)) ∧
    decodeRules (ruleListDocument rules) = .error (.formula (.binaryArity .and 0)) := by
  intro negation rules
  have hnegation : negation.Representable := representable_of_violation? (by decide) (by decide)
  have hrules : ∀ r ∈ rules, r.formula.Representable := fun r hr =>
    representable_of_violation? (by revert r; decide) (by revert r; decide)
  obtain ⟨hformula, hrule, hlist⟩ := decode_eq_build
  exact ⟨hformula negation hnegation, hrule ⟨negation, .deny⟩ hnegation,
    hlist rules (by decide) hrules⟩

end Document

end InstallPolicy
