import InstallPolicy.Proofs.Formula.Digest
import InstallPolicy.Proofs.Formula.Matching
import InstallPolicy.Proofs.Validity

/-!
Names in formulas.

A name that is too long stands hashed, and nobody can tell: the formula for a name holds of the name
and of no other one that does not collide with it, and it has a document whatever the name. So the
rule of the allowed installers, which compares whole names, can as well be put together from the
formulas for names.
-/

namespace InstallPolicy

open Document

/-! ### The formula for a name -/

/-- The formula holds of the subjects whose field is the name. Of others it holds only by a
collision with a name that is too long to stand as it is, and it is read as it was written. -/
structure Formula.StandsFor (f : Formula) (field : Subject → String) (name : String) :
    Prop where
  own : ∀ s, field s = name → f.holds s = true
  other : ∀ s, field s ≠ name → f.holds s = true →
    32 < (Bytes.ofText name).length ∧
      hexDigest (Bytes.ofText (field s)) = hexDigest (Bytes.ofText name)
  document : ∃ b, encodeFormula f = .ok b ∧ decodeFormula b = .ok f

namespace Atom

variable {key : Key} {name : String} {s : Subject}

lemma named_of_long (hkey : key = .packageName ∨ key = .installerName)
    (h : 32 < (Bytes.ofText name).length) :
    named key name = ⟨key, .equal, .text (hexDigest (Bytes.ofText name)), true⟩ :=
  if_pos ⟨hkey, h⟩

lemma named_of_short (h : (Bytes.ofText name).length ≤ 32) :
    named key name = ⟨key, .equal, .text name, false⟩ :=
  if_neg fun hlong => Nat.not_lt_of_le h hlong.2

lemma holds_named (hkey : key = .packageName ∨ key = .installerName) {actual : String}
    (h : s.value key = .text actual) :
    (named key name).holds s = true ↔ actual = name ∨
      32 < (Bytes.ofText name).length ∧
        hexDigest (Bytes.ofText actual) = hexDigest (Bytes.ofText name) := by
  by_cases hlong : 32 < (Bytes.ofText name).length
  · rw [named_of_long hkey hlong]
    have hself : actual = name → hexDigest (Bytes.ofText actual) = hexDigest (Bytes.ofText name) :=
      fun he => by rw [he]
    simpa [Atom.holds, h, hlong] using hself
  · rw [named_of_short (Nat.le_of_not_lt hlong)]
    simp [Atom.holds, h, hlong]

/-- A character has four bytes at the most. -/
lemma length_ofText_le (s : String) : (Bytes.ofText s).length ≤ 4 * s.length := by
  obtain ⟨cs, rfl⟩ : ∃ cs, s = String.ofList cs := ⟨s.toList, String.ofList_toList.symm⟩
  induction cs with
  | nil => simp [Bytes.ofText]
  | cons c cs ih =>
    have hcons : (Bytes.ofText (String.ofList (c :: cs))).length =
        c.utf8Size + (Bytes.ofText (String.ofList cs)).length := by
      simp [Bytes.ofText, List.utf8Encode]
    have := c.utf8Size_le_four
    rw [hcons, String.length_ofList, List.length_cons]
    rw [String.length_ofList] at ih
    omega

lemma fault?_text {operator : Operator} {v : String} {hashed : Bool}
    (h : (Bytes.ofText v).length ≤ maxTextBytes) :
    (Atom.mk key operator (.text v) hashed).fault? = none := by
  rw [fault?]
  exact if_pos h

/-- Neither a short name nor a digest is too long for a document. -/
lemma fault?_named (hkey : key = .packageName ∨ key = .installerName) (name : String) :
    (named key name).fault? = none := by
  by_cases hlong : 32 < (Bytes.ofText name).length
  · rw [named_of_long hkey hlong]
    refine fault?_text ?_
    have hbytes := length_ofText_le (hexDigest (Bytes.ofText name))
    rw [(isDigestText_hexDigest _).1] at hbytes
    exact Nat.le_trans hbytes (by decide)
  · have hshort := Nat.le_of_not_lt hlong
    rw [named_of_short hshort]
    exact fault?_text (Nat.le_trans hshort (by decide))

end Atom

namespace Formula

lemma standsFor_named {key : Key} {field : Subject → String}
    (hkey : key = .packageName ∨ key = .installerName)
    (h : ∀ s : Subject, s.value key = .text (field s)) (name : String) :
    (atom (.named key name)).StandsFor field name where
  own s hs := (Atom.holds_named hkey (h s)).2 (.inl hs)
  other s hs hholds := ((Atom.holds_named hkey (h s)).1 hholds).resolve_left hs
  document := by
    have hv : (atom (.named key name)).violation? 0 = none := by
      rw [violation?_atom, Atom.fault?_named hkey]
    have hencode := encodeFormula_eq_ok_iff.2 ⟨hv, rfl⟩
    have hkind : key.kind = .text := by rcases hkey with rfl | rfl <;> rfl
    have hw := Atom.wellFormed_named hkind name
    exact ⟨_, hencode, decodeFormula_of_encodeFormula (.atom hw) hencode⟩

lemma standsFor_packageIs (name : String) : (packageIs name).StandsFor (·.packageName) name :=
  standsFor_named (.inl rfl) (fun _ => rfl) name

lemma standsFor_installerIs (name : String) : (installerIs name).StandsFor (·.installerName) name :=
  standsFor_named (.inr rfl) (fun _ => rfl) name

end Formula

/-! ### Allowed installers by the formulas for names -/

namespace AllowedInstallers

variable {m : AllowedInstallers} {s : Subject}

/-- The install comes from this installer, told by the formula for the name. -/
def authoredEntry (name certificate : String) : Except FormulaError Formula :=
  Formula.all [.installerIs name, .installerCertificateIs certificate]

def anyOf : List Formula → Except FormulaError Formula
  | [f] => .ok f
  | fs => Formula.any fs

/-- The install comes from none of the installers, put together by the ways to make a formula that
check their parts. -/
def authored (m : AllowedInstallers) : Except FormulaError Formula := do
  let entries ← m.entries.mapM fun e => authoredEntry e.1 e.2
  let f ← anyOf entries
  return f.negate

/-- The table has no other name with the digest of the subject's installer. -/
def CollisionFree (m : AllowedInstallers) (s : Subject) : Prop :=
  ∀ e ∈ m.entries, e.1 ≠ s.installerName →
    Sha256.digest (Bytes.ofText e.1) ≠ Sha256.digest (Bytes.ofText s.installerName)

instance (m : AllowedInstallers) (s : Subject) : Decidable (m.CollisionFree s) :=
  inferInstanceAs (Decidable (∀ e ∈ m.entries, _))

/-- The formula for an entry that `authoredEntry` comes to. -/
def namedEntry (e : String × String) : Formula :=
  .compound .and [.installerIs e.1, .installerCertificateIs e.2]

lemma authored_cases (h : m.entries ≠ []) :
    (∃ e, m.entries = [e] ∧ m.authored = .ok (namedEntry e).negate) ∨
      2 ≤ m.entries.length ∧
        m.authored = .ok (Formula.compound .or (m.entries.map namedEntry)).negate := by
  have hentries : m.entries.mapM (fun e => authoredEntry e.1 e.2) =
      .ok (m.entries.map namedEntry) := List.mapM_pure
  rw [authored, hentries]
  match m.entries, h with
  | [e], _ => exact .inl ⟨e, rfl, rfl⟩
  | _ :: _ :: es, _ => exact .inr ⟨Nat.le_add_left 2 es.length, rfl⟩

lemma holds_installerIs (hfree : m.CollisionFree s) {e : String × String} (he : e ∈ m.entries) :
    (Formula.installerIs e.1).holds s = (s.installerName == e.1) := by
  rw [Bool.eq_iff_iff, beq_iff_eq]
  have hstands := Formula.standsFor_installerIs e.1
  refine ⟨fun h => Decidable.byContradiction fun hne => ?_, hstands.own s⟩
  obtain ⟨-, hdigest⟩ := hstands.other s hne h
  exact hfree e he (Ne.symm hne) (hexDigest_eq_iff.1 hdigest).symm

lemma holds_namedEntry (hfree : m.CollisionFree s) {e : String × String} (he : e ∈ m.entries) :
    (namedEntry e).holds s = (entryFormula e.1 e.2).holds s := by
  have hname := holds_installerIs hfree he
  rw [holds_entryFormula, ← hname]
  simp [namedEntry, Formula.holds, Formula.installerCertificateIs, Atom.holds, Subject.value]

/-- Without a collision the formula for the entries says what the rule says. -/
lemma exists_authored (h : m.entries ≠ []) :
    ∃ f r, m.authored = .ok f ∧ m.rule? = some r ∧
      ∀ s, m.CollisionFree s → f.holds s = r.formula.holds s := by
  obtain ⟨r, hr⟩ := Option.ne_none_iff_exists'.1 (mt rule?_eq_none_iff.1 h)
  obtain ⟨g, hg, rfl⟩ := rule?_eq_some hr
  rcases authored_cases h with ⟨e, he, hf⟩ | ⟨hlength, hf⟩
  · obtain rfl : g = entryFormula e.1 e.2 := by simpa [formula?, he] using hg.symm
    refine ⟨_, _, hf, hr, fun s hfree => ?_⟩
    rw [Formula.holds_negate, Formula.holds_negate, holds_namedEntry hfree (by simp [he])]
  · obtain ⟨e, he, -⟩ | ⟨-, rfl⟩ := formula?_eq_some hg
    · simp [he] at hlength
    refine ⟨_, _, hf, hr, fun s hfree => ?_⟩
    rw [Formula.holds_negate, Formula.holds_negate, Formula.holds, Formula.holds,
      Formula.anyHold_eq, Formula.anyHold_eq, List.any_map, List.any_map]
    exact congrArg (!·) (Formula.any_eq_of_mem fun e he => holds_namedEntry hfree he)

/-- **A name that stands hashed is as good as the name itself**, in the formulas for packages and
for installers. In particular, the formula that is put together from them for a table of allowed
installers holds of the same subjects as the rule of the table, unless the subject's installer
collides with another name of the table. -/
theorem names_stand_for_themselves :
    (∀ name, (Formula.packageIs name).StandsFor (·.packageName) name ∧
      (Formula.installerIs name).StandsFor (·.installerName) name) ∧
    ∀ m : AllowedInstallers, m.entries ≠ [] → ∃ f r, m.authored = .ok f ∧ m.rule? = some r ∧
      ∀ s, m.CollisionFree s → f.holds s = r.formula.holds s :=
  ⟨fun name => ⟨Formula.standsFor_packageIs name, Formula.standsFor_installerIs name⟩,
    fun _ => exists_authored⟩

/-- A long name in a table of two: from its installer an install is let through, and from one whose
name lacks the last letter it is not. -/
theorem names_stand_for_themselves_long :
    let long := "com.example.installer.with.a.name.longer.than.limit"
    let m : AllowedInstallers := .ofList [("com.other", "OTHER"), (long, "CERT")]
    let listed : Subject :=
      { packageName := long, installerName := long, installerCertificate := "CERT" }
    let unlisted : Subject :=
      { listed with installerName := "com.example.installer.with.a.name.longer.than.limi" }
    32 < (Bytes.ofText long).length ∧ (Formula.packageIs long).holds listed = true ∧
    m.CollisionFree listed ∧ m.CollisionFree unlisted ∧
    ∃ f, m.authored = .ok f ∧ f.holds listed = false ∧ f.holds unlisted = true := by
  intro long m listed unlisted
  obtain ⟨hnames, htables⟩ := names_stand_for_themselves
  obtain ⟨f, r, hf, hr, hsame⟩ := htables m (by decide)
  have hlisted : m.CollisionFree listed := by decide +kernel
  have hunlisted : m.CollisionFree unlisted := by decide +kernel
  have hallows : ¬ r.formula.holds listed = true := fun h => (holds_rule? hr).1 h (by decide)
  have hdenies : r.formula.holds unlisted = true := (holds_rule? hr).2 (by decide)
  refine ⟨by decide, (hnames long).1.own listed rfl, hlisted, hunlisted, f, hf, ?_, ?_⟩
  · rw [hsame listed hlisted]
    exact Bool.eq_false_iff.2 hallows
  · rw [hsame unlisted hunlisted, hdenies]

end AllowedInstallers

end InstallPolicy
