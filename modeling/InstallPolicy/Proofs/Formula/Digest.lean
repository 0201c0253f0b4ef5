import Mathlib.Logic.Relation
import InstallPolicy.Formula.Matching
import InstallPolicy.Proofs.Formula.WellFormed

/-!
Digests in formulas.

The text of a digest has sixty-four digits in upper case and determines the digest. A hashed atom is
compared with such texts only, so one with any other literal is accepted like the rest but holds of
no subject: in a rule that denies it never applies.
-/

namespace InstallPolicy

/-! ### Digests as texts -/

namespace Bytes

lemma hexDigit_mem : ∀ n < 16, hexDigit n ∈ "0123456789ABCDEF".toList := by decide

lemma hexDigit_inj : ∀ m < 16, ∀ n < 16, hexDigit m = hexDigit n → m = n := by decide

lemma hexDigits_cons (b : UInt8) (bs : Bytes) :
    hexDigits (b :: bs) = hexDigit (b.toNat / 16) :: hexDigit (b.toNat % 16) :: hexDigits bs := rfl

lemma halves_lt (b : UInt8) : b.toNat / 16 < 16 ∧ b.toNat % 16 < 16 := by
  have := b.toNat_lt
  omega

lemma mem_of_mem_hexDigits {bs : Bytes} {c : Char} (h : c ∈ hexDigits bs) :
    c ∈ "0123456789ABCDEF".toList := by
  induction bs with
  | nil => simp [hexDigits] at h
  | cons b bs ih =>
    obtain ⟨hhigh, hlow⟩ := halves_lt b
    rw [hexDigits_cons, List.mem_cons, List.mem_cons] at h
    rcases h with rfl | rfl | h
    · exact hexDigit_mem _ hhigh
    · exact hexDigit_mem _ hlow
    · exact ih h

lemma hexDigits_injective {as bs : Bytes} (h : hexDigits as = hexDigits bs) : as = bs := by
  induction as generalizing bs with
  | nil =>
    cases bs with
    | nil => rfl
    | cons b bs => simp [hexDigits] at h
  | cons a as ih =>
    cases bs with
    | nil => simp [hexDigits] at h
    | cons b bs =>
      rw [hexDigits_cons, hexDigits_cons, List.cons.injEq, List.cons.injEq] at h
      obtain ⟨hhigh, hlow, hrest⟩ := h
      have hdiv := hexDigit_inj _ (halves_lt a).1 _ (halves_lt b).1 hhigh
      have hmod := hexDigit_inj _ (halves_lt a).2 _ (halves_lt b).2 hlow
      obtain rfl : a = b := UInt8.toNat_inj.1 (by omega)
      rw [ih hrest]

end Bytes

/-- The form of a digest: sixty-four of the digits from `0` to `9` and from `A` to `F`. -/
def IsDigestText (v : String) : Prop :=
  v.length = 64 ∧ ∀ c ∈ v.toList, c ∈ "0123456789ABCDEF".toList

-- Only the characters of the text are looked at, not all that there are.
instance (v : String) : Decidable (IsDigestText v) :=
  decidable_of_iff (v.length = 64 ∧ v.toList.all (· ∈ "0123456789ABCDEF".toList))
    (by simp [IsDigestText])

lemma isDigestText_hexDigest (bs : Bytes) : IsDigestText (hexDigest bs) := by
  constructor
  · rw [← String.length_toList, hexDigest, Bytes.toList_toHex, Bytes.length_hexDigits,
      Sha256.length_digest]
  · intro c hc
    rw [hexDigest, Bytes.toList_toHex] at hc
    exact Bytes.mem_of_mem_hexDigits hc

/-- The text of a digest says no less than the digest. -/
lemma hexDigest_eq_iff {as bs : Bytes} :
    hexDigest as = hexDigest bs ↔ Sha256.digest as = Sha256.digest bs := by
  refine ⟨fun h => Bytes.hexDigits_injective ?_, fun h => congrArg Bytes.toHex h⟩
  rw [← Bytes.toList_toHex, ← Bytes.toList_toHex]
  exact congrArg String.toList h

/-! ### Hashed atoms -/

/-- A hashed atom holds only if its literal has the form of a digest. -/
lemma Atom.holds_of_not_isDigestText {key : Key} {operator : Operator} {v : String}
    (h : ¬ IsDigestText v) (s : Subject) :
    (Atom.mk key operator (.text v) true).holds s = false := by
  unfold Atom.holds
  cases s.value key with
  | text actual =>
    have hne : hexDigest (Bytes.ofText actual) ≠ v := fun hv => h (hv ▸ isDigestText_hexDigest _)
    simpa using hne
  | integer n => rfl
  | boolean b => rfl

namespace Formula

variable {f g : Formula} {s : Subject}

/-- At one leaf a hashed atom, whose literal does not have the form of a digest, gives way to one
with the same key and another such literal. -/
inductive Respelled : Formula → Formula → Prop where
  | atom {key : Key} {operator : Operator} {v w : String} : ¬ IsDigestText v → ¬ IsDigestText w →
    Respelled (.atom ⟨key, operator, .text v, true⟩) (.atom ⟨key, operator, .text w, true⟩)
  | compound {connector : Connector} (before after : List Formula) {f g : Formula} :
    Respelled f g → Respelled (.compound connector (before ++ f :: after))
      (.compound connector (before ++ g :: after))

lemma holds_compound_of_child {connector : Connector} {before after : List Formula}
    (h : g.holds s = f.holds s) :
    (compound connector (before ++ g :: after)).holds s =
      (compound connector (before ++ f :: after)).holds s := by
  cases connector <;> simp [holds, h]

/-- One replacement: neither being well formed nor holding of a subject is touched. -/
lemma Respelled.sound (h : Respelled f g) :
    (g.WellFormed ↔ f.WellFormed) ∧ ∀ s, g.holds s = f.holds s := by
  induction h with
  | atom hv hw =>
    refine ⟨?_, fun s => ?_⟩
    · simp only [wellFormed_atom_iff, Atom.wellFormed_iff, Literal.kind]
    · rw [holds, holds, Atom.holds_of_not_isDigestText hv, Atom.holds_of_not_isDigestText hw]
  | compound before after _ ih =>
    refine ⟨?_, fun s => holds_compound_of_child (ih.2 s)⟩
    simp only [wellFormed_compound_iff, List.length_append, List.length_cons,
      List.forall_mem_append, List.forall_mem_cons, ih.1]

lemma sound_of_respelled (h : Relation.ReflTransGen Respelled f g) :
    (g.WellFormed ↔ f.WellFormed) ∧ ∀ s, g.holds s = f.holds s := by
  induction h with
  | refl => exact ⟨Iff.rfl, fun _ => rfl⟩
  | tail _ hstep ih => exact ⟨hstep.sound.1.trans ih.1, fun s => (hstep.sound.2 s).trans (ih.2 s)⟩

/-- **Only the text of a digest satisfies a hashed atom.** With any other literal the atom is still
accepted, but it holds of no subject. So in a formula such literals can be replaced by one another,
at one leaf after the other, and it stays well formed and holds of the same subjects. -/
theorem hashed_needs_digest :
    (∀ (key : Key) (v : String), key.kind = .text → ¬ IsDigestText v →
      Atom.text key v true = .ok ⟨key, .equal, .text v, true⟩ ∧
      ∀ operator s, (Atom.mk key operator (.text v) true).holds s = false) ∧
    ∀ f g : Formula, f.WellFormed → Relation.ReflTransGen Respelled f g →
      g.WellFormed ∧ ∀ s, g.holds s = f.holds s := by
  refine ⟨fun key v hkey hv => ⟨?_, fun operator => Atom.holds_of_not_isDigestText hv⟩,
    fun f g hw h => ?_⟩
  · exact Atom.build_eq_ok_iff.2 ⟨rfl, hkey.symm, by simp [Key.supports], fun _ => hkey⟩
  · obtain ⟨hwellFormed, hholds⟩ := sound_of_respelled h
    exact ⟨hwellFormed.2 hw, hholds⟩

/-- The digest of a name in lower case, cut short, and not a digest at all: none of them denies the
name, neither by itself nor below a negation. -/
theorem hashed_needs_digest_lower :
    let lower := "ba7816bf8f01cfea414140de5dae2223b00361a396177a9cb410ff61f20015ad"
    let upper := "BA7816BF8F01CFEA414140DE5DAE2223B00361A396177A9CB410FF61F20015AD"
    let short := "BA7816BF8F01CFEA414140DE5DAE2223B00361A396177A9CB410FF61F20015A"
    let named (v : String) : Formula := .atom ⟨.packageName, .equal, .text v, true⟩
    let f (v w : String) : Formula := .compound .or [named v, .negate (named w)]
    let s : Subject := { packageName := "abc" }
    hexDigest (Bytes.ofText "abc") = upper ∧
    (∀ v ∈ [lower, short, "abc"], ¬ IsDigestText v ∧ (named v).holds s = false) ∧
    (f lower short).WellFormed ∧ ((f "abc" lower).WellFormed ∧
      ∀ s, (f "abc" lower).holds s = (f lower short).holds s) := by
  intro lower upper short named f s
  have hspoiled : ∀ v ∈ [lower, short, "abc"], ¬ IsDigestText v := by decide +kernel
  obtain ⟨hlower, hshort, habc, -⟩ : ¬ IsDigestText lower ∧ ¬ IsDigestText short ∧
      ¬ IsDigestText "abc" ∧ _ := by simpa only [List.forall_mem_cons] using hspoiled
  have hfirst : Respelled (f lower short) (f "abc" short) := .compound [] _ (.atom hlower habc)
  have hsecond : Respelled (f "abc" short) (f "abc" lower) :=
    .compound [_] [] (.compound [] [] (.atom hshort hlower))
  have hw : (f lower short).WellFormed := by decide
  refine ⟨by decide +kernel, fun v hv => ?_, hw, ?_⟩
  · have hv' := hspoiled v hv
    exact ⟨hv', (hashed_needs_digest.1 .packageName v rfl hv').2 .equal s⟩
  · exact hashed_needs_digest.2 _ _ hw (.tail (.single hfirst) hsecond)

end Formula

end InstallPolicy
