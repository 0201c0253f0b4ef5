import InstallPolicy.Proofs.Formula.Tree
import InstallPolicy.Proofs.Formula.WellFormed
import InstallPolicy.Rule

/-!
Printed formulas can be read in one way only.

As long as no text in a formula has a closing bracket, the printed formula tells where it ends,
whatever follows it, and which formula it is, but for the marks of the texts that stand hashed. So
no printed formula is a proper beginning of another one, and printed rules tell which rules they are
in the same way.
-/

namespace InstallPolicy

/-! ### Words -/

section Words

variable {x y u v : List Char} {c : Char}

/-- What stands before the first `c` is determined by the whole. -/
lemma append_cons_inj (hx : c ∉ x) (hy : c ∉ y) (h : x ++ c :: u = y ++ c :: v) :
    x = y ∧ u = v := by
  induction x generalizing y with
  | nil =>
    cases y with
    | nil => simpa using h
    | cons d y =>
      obtain ⟨rfl, -⟩ := List.cons.inj h
      simp at hy
  | cons d x ih =>
    cases y with
    | nil =>
      obtain ⟨rfl, -⟩ := List.cons.inj h
      simp at hx
    | cons e y =>
      obtain ⟨rfl, htail⟩ := List.cons.inj h
      obtain ⟨rfl, rfl⟩ :=
        ih (List.not_mem_of_not_mem_cons hx) (List.not_mem_of_not_mem_cons hy) htail
      exact ⟨rfl, rfl⟩

lemma toList_intercalate_cons (separator t : String) (ts : List String) :
    (separator.intercalate (t :: ts)).toList =
      t.toList ++ ts.flatMap fun t' => separator.toList ++ t'.toList := by
  induction ts generalizing t with
  | nil => simp
  | cons t' ts ih => simp [ih]

end Words

/-- A vocabulary whose words are told apart by their names, none of which has a space in it. -/
structure Spelled {α : Type} (name : α → String) : Prop where
  injective : Function.Injective name
  space_notMem : ∀ a, ' ' ∉ (name a).toList

/-- A word is read up to the space behind it. -/
lemma Spelled.append_inj {α : Type} {name : α → String} (hname : Spelled name) {a b : α}
    {u v : List Char} (h : (name a).toList ++ ' ' :: u = (name b).toList ++ ' ' :: v) :
    a = b ∧ u = v := by
  obtain ⟨hword, hrest⟩ := append_cons_inj (hname.space_notMem a) (hname.space_notMem b) h
  exact ⟨hname.injective (String.toList_inj.1 hword), hrest⟩

lemma Key.spelled : Spelled name where
  injective j k := by cases j <;> cases k <;> decide
  space_notMem k := by cases k <;> decide

lemma Operator.spelled : Spelled name where
  injective o p := by cases o <;> cases p <;> decide
  space_notMem o := by cases o <;> decide

lemma Connector.spelled : Spelled name where
  injective c d := by cases c <;> cases d <;> decide
  space_notMem c := by cases c <;> decide

lemma Effect.spelled : Spelled name where
  injective e e' := by cases e <;> cases e' <;> decide
  space_notMem e := by cases e <;> decide

/-- No name of a key begins as a formula does. -/
lemma Key.head?_name (k : Key) : ∃ c, k.name.toList.head? = some c ∧ c ≠ '(' ∧ c ≠ 'N' := by
  cases k <;> exact ⟨_, rfl, by decide, by decide⟩

/-! ### Literals -/

namespace Literal

/-- A text without a closing bracket, or no text. -/
def BracketFree : Literal → Prop
  | text s => ')' ∉ s.toList
  | _ => True

instance : DecidablePred BracketFree
  | text s => inferInstanceAs (Decidable (')' ∉ s.toList))
  | integer _ => .isTrue trivial
  | boolean _ => .isTrue trivial

lemma notMem_toDigits {c : Char} (hc : c.isDigit = false) (n : ℕ) : c ∉ Nat.toDigits 10 n :=
  fun h => absurd (Nat.isDigit_of_mem_toDigits (by decide) (by decide) h) (by simp [hc])

lemma bracket_notMem_render {l : Literal} (h : l.BracketFree) : ')' ∉ l.render.toList := by
  cases l with
  | text s => exact h
  | integer n =>
    rw [render, Int.toString_eq_repr, Int.repr_eq_if]
    split <;> simp [notMem_toDigits]
  | boolean b => cases b <;> decide

lemma toDigits_inj {m n : ℕ} (h : Nat.toDigits 10 m = Nat.toDigits 10 n) : m = n := by
  simpa [Nat.ofDigitChars_ten_toDigits] using congrArg (Nat.ofDigitChars 10 · 0) h

lemma toList_repr_ofNat (n : ℕ) : (Int.ofNat n).repr.toList = Nat.toDigits 10 n := Nat.toList_repr

lemma toList_repr_negSucc (n : ℕ) :
    (Int.negSucc n).repr.toList = '-' :: Nat.toDigits 10 (n + 1) := by
  simp [Int.repr]

/-- Integers are told apart by their sign and their digits. -/
lemma repr_inj {n k : Int} (h : n.repr = k.repr) : n = k := by
  have hlist : n.repr.toList = k.repr.toList := congrArg String.toList h
  have hsign (m : ℕ) : '-' ∉ Nat.toDigits 10 m := notMem_toDigits rfl m
  cases n with
  | ofNat n =>
    rw [toList_repr_ofNat] at hlist
    cases k with
    | ofNat k => rw [toDigits_inj (hlist.trans (toList_repr_ofNat k))]
    | negSucc k =>
      rw [toList_repr_negSucc] at hlist
      exact absurd (hlist ▸ List.mem_cons_self) (hsign n)
  | negSucc n =>
    rw [toList_repr_negSucc] at hlist
    cases k with
    | ofNat k =>
      rw [toList_repr_ofNat] at hlist
      exact absurd (hlist ▸ List.mem_cons_self) (hsign k)
    | negSucc k =>
      rw [toList_repr_negSucc] at hlist
      rw [Nat.succ.inj (toDigits_inj (List.cons.inj hlist).2)]

/-- Literals of one kind that are printed alike are the same. -/
lemma render_inj {l m : Literal} (hkind : l.kind = m.kind) (h : l.render = m.render) : l = m := by
  cases l <;> cases m <;> try contradiction
  case text s t => exact congrArg text h
  case integer n k => exact congrArg integer (Int64.toInt_inj.1 (repr_inj h))
  case boolean b c => cases b <;> cases c <;> first | rfl | contradiction

end Literal

/-! ### Atoms -/

namespace Atom

variable {a b : Atom} {u v : List Char}

/-- The atom without the mark that its text stands hashed, which is not printed. -/
def unmarked (a : Atom) : Atom :=
  match a.literal with
  | .text _ => { a with hashed := false }
  | _ => a

lemma render_unmarked (a : Atom) : a.unmarked.render = a.render := by
  unfold unmarked
  split <;> rfl

lemma WellFormed.unmarked_eq (h : a.WellFormed) : a.unmarked = { a with hashed := false } := by
  obtain ⟨key, operator, literal, hashed⟩ := a
  cases literal with
  | text s => rfl
  | integer n =>
    obtain rfl : hashed = false := h.hashed_eq_false (by simp [Literal.kind])
    rfl
  | boolean b =>
    obtain rfl : hashed = false := h.hashed_eq_false (by simp [Literal.kind])
    rfl

lemma toList_render (a : Atom) :
    a.render.toList = '(' :: (a.key.name.toList ++ ' ' :: (a.operator.name.toList ++
      ' ' :: (a.literal.render.toList ++ [')']))) := by
  simp [render]

/-- A printed atom tells where it ends: the key, the operator and the literal are each followed by
a character that is not in them. -/
lemma render_append_inj (ha : a.WellFormed) (hb : b.WellFormed) (hfree : a.literal.BracketFree)
    (hfree' : b.literal.BracketFree) (h : a.render.toList ++ u = b.render.toList ++ v) :
    a.unmarked = b.unmarked ∧ u = v := by
  simp only [toList_render, List.cons_append, List.append_assoc, List.cons.injEq, true_and] at h
  obtain ⟨hkey, h⟩ := Key.spelled.append_inj h
  obtain ⟨hoperator, h⟩ := Operator.spelled.append_inj h
  obtain ⟨htext, h⟩ :=
    append_cons_inj (Literal.bracket_notMem_render hfree) (Literal.bracket_notMem_render hfree') h
  have hkind : a.literal.kind = b.literal.kind := by rw [ha.kind, hb.kind, hkey]
  have hliteral : a.literal = b.literal := Literal.render_inj hkind (String.toList_inj.1 htext)
  exact ⟨by rw [ha.unmarked_eq, hb.unmarked_eq, hkey, hoperator, hliteral], h⟩

end Atom

/-! ### Formulas -/

namespace Formula

variable {f g : Formula} {fs gs : List Formula} {connector : Connector} {u v : List Char}

def unmarked (f : Formula) : Formula := f.mapAtoms Atom.unmarked

lemma unmarked_compound (connector : Connector) (fs : List Formula) :
    (compound connector fs).unmarked = compound connector (fs.map unmarked) := by
  rw [unmarked, mapAtoms, mapAtomsOf_eq]
  rfl

def BracketFree (f : Formula) : Prop := ∀ a ∈ f.leaves, a.literal.BracketFree

instance : DecidablePred BracketFree := fun f =>
  inferInstanceAs (Decidable (∀ a ∈ f.leaves, a.literal.BracketFree))

/-- Formulas as they have to be in order to be read from their texts, by how they are printed. -/
inductive Legible : Formula → Prop where
  | atom {a : Atom} : a.WellFormed → a.literal.BracketFree → Legible (.atom a)
  | negation {f : Formula} : Legible f → Legible (.compound .not [f])
  | junction {connector : Connector} {f : Formula} {fs : List Formula} : connector ≠ .not →
    fs ≠ [] → (∀ g ∈ f :: fs, Legible g) → Legible (.compound connector (f :: fs))

lemma BracketFree.child (h : (compound connector fs).BracketFree) (hf : f ∈ fs) :
    f.BracketFree :=
  fun a ha => h a (mem_leaves_compound.2 ⟨f, hf, ha⟩)

lemma WellFormed.legible (hw : f.WellFormed) (hfree : f.BracketFree) : Legible f := by
  induction f with
  | atom a => exact .atom (wellFormed_atom_iff.1 hw) (hfree a List.mem_cons_self)
  | compound connector children ih =>
    obtain ⟨hadmits, hchildren⟩ := wellFormed_compound_iff.1 hw
    have hlegible : ∀ g ∈ children, Legible g :=
      fun g hg => ih g hg (hchildren g hg) (hfree.child hg)
    match connector, children, hadmits with
    | .not, [g], _ => exact .negation (hlegible g List.mem_cons_self)
    | .and, g :: g' :: gs, _ => exact .junction nofun (List.cons_ne_nil _ _) hlegible
    | .or, g :: g' :: gs, _ => exact .junction nofun (List.cons_ne_nil _ _) hlegible

/-! #### Texts of formulas -/

lemma toList_render_negation (f : Formula) :
    (compound .not [f]).render.toList = "NOT ".toList ++ f.render.toList := by
  simp [render]

/-- What is printed of the children of a conjunction or disjunction behind the first one. -/
def renderFurther (connector : Connector) (fs : List Formula) : List Char :=
  fs.flatMap fun f => ' ' :: (connector.name.toList ++ ' ' :: f.render.toList)

lemma render_junction (h : connector ≠ .not) (fs : List Formula) :
    (compound connector fs).render =
      "(" ++ (" " ++ connector.name ++ " ").intercalate (fs.map render) ++ ")" := by
  cases connector with
  | and => simp [render]
  | or => simp [render]
  | not => contradiction

lemma toList_render_junction (h : connector ≠ .not) (f : Formula) (fs : List Formula) :
    (compound connector (f :: fs)).render.toList =
      '(' :: (f.render.toList ++ (renderFurther connector fs ++ [')'])) := by
  rw [render_junction h, List.map_cons, String.toList_append, String.toList_append,
    toList_intercalate_cons]
  simp [renderFurther, List.flatMap_map]

lemma Legible.head?_render (h : Legible f) :
    f.render.toList.head? = some '(' ∨ f.render.toList.head? = some 'N' := by
  cases h with
  | atom _ _ => simp [render, Atom.toList_render]
  | negation _ => simp [toList_render_negation]
  | junction hnot _ _ => simp [toList_render_junction hnot]

/-! #### Reading them back -/

/-- Behind the bracket that both open with, an atom has its key and a junction has a formula. -/
lemma render_atom_append_ne (a : Atom) (hnot : connector ≠ .not) (hf : Legible f) :
    a.render.toList ++ u ≠ (compound connector (f :: fs)).render.toList ++ v := by
  intro h
  simp only [Atom.toList_render, toList_render_junction hnot, List.cons_append,
    List.append_assoc, List.cons.injEq, true_and] at h
  have hheads := congrArg List.head? h
  obtain ⟨c, hc, hbracket, hletter⟩ := Key.head?_name a.key
  simp only [List.head?_append, hc, Option.some_or] at hheads
  rcases hf.head?_render with hhead | hhead
  · exact hbracket (by simpa [hhead] using hheads)
  · exact hletter (by simpa [hhead] using hheads)

/-- Whatever follows it, the text of the formula tells where it ends and which formula it is of. -/
def Delimited (f : Formula) : Prop :=
  ∀ ⦃g : Formula⦄ ⦃u v : List Char⦄, Legible g → f.render.toList ++ u = g.render.toList ++ v →
    f.unmarked = g.unmarked ∧ u = v

/-- Children that tell where they end tell so together, and which connector is between them. -/
lemma renderFurther_append_inj {connector' : Connector} (hfs : ∀ f ∈ fs, Delimited f)
    (hgs : ∀ g ∈ gs, Legible g)
    (h : renderFurther connector fs ++ ')' :: u = renderFurther connector' gs ++ ')' :: v) :
    fs.map unmarked = gs.map unmarked ∧ (fs ≠ [] → connector = connector') ∧ u = v := by
  -- Where one list ends there is a bracket, and where the other goes on there is a space.
  induction fs generalizing gs with
  | nil =>
    cases gs with
    | nil => simpa [renderFurther] using h
    | cons g gs => simp [renderFurther] at h
  | cons f fs ih =>
    cases gs with
    | nil => simp [renderFurther] at h
    | cons g gs =>
      obtain ⟨hf, hfs⟩ := List.forall_mem_cons.1 hfs
      obtain ⟨hg, hgs⟩ := List.forall_mem_cons.1 hgs
      simp only [renderFurther, List.flatMap_cons, List.cons_append, List.append_assoc,
        List.cons.injEq, true_and] at h
      obtain ⟨rfl, h⟩ := Connector.spelled.append_inj h
      obtain ⟨hhead, h⟩ := hf hg h
      obtain ⟨htail, -, hrest⟩ := ih hfs hgs h
      exact ⟨by rw [List.map_cons, List.map_cons, hhead, htail], fun _ => rfl, hrest⟩

/-- **A printed formula tells where it ends**, by induction on how it is printed. -/
lemma Legible.delimited (hf : Legible f) : Delimited f := by
  -- The first character tells a negation from the rest, the second one an atom from a junction.
  induction hf with
  | @atom a hw hfree =>
    intro g u v hg h
    cases hg with
    | atom hw' hfree' =>
      obtain ⟨heq, hrest⟩ := Atom.render_append_inj hw hw' hfree hfree' h
      exact ⟨congrArg Formula.atom heq, hrest⟩
    | negation _ => simp [render, Atom.toList_render] at h
    | junction hnot _ hchildren =>
      exact absurd h (render_atom_append_ne a hnot (hchildren _ List.mem_cons_self))
  | @negation f _ ih =>
    intro g u v hg h
    cases hg with
    | atom _ _ => simp [render, Atom.toList_render] at h
    | negation hf' =>
      rw [toList_render_negation, toList_render_negation, List.append_assoc, List.append_assoc] at h
      obtain ⟨heq, hrest⟩ := ih hf' (List.append_cancel_left h)
      exact ⟨by simp [unmarked_compound, heq], hrest⟩
    | junction hnot _ _ => simp [toList_render_negation, toList_render_junction hnot] at h
  | @junction connector f fs hnot hne hchildren ih =>
    intro g u v hg h
    cases hg with
    | @atom b _ _ =>
      exact absurd h.symm (render_atom_append_ne b hnot (hchildren _ List.mem_cons_self))
    | negation _ => simp [toList_render_negation, toList_render_junction hnot] at h
    | @junction connector' g gs hnot' _ hchildren' =>
      obtain ⟨hf, hfs⟩ := List.forall_mem_cons.1 ih
      obtain ⟨hg, hgs⟩ := List.forall_mem_cons.1 hchildren'
      simp only [toList_render_junction hnot, toList_render_junction hnot', List.cons_append,
        List.append_assoc, List.cons.injEq, true_and] at h
      obtain ⟨hhead, h⟩ := hf hg h
      obtain ⟨htail, hconnector, hrest⟩ := renderFurther_append_inj hfs hgs h
      obtain rfl := hconnector hne
      exact ⟨by simp only [unmarked_compound, List.map_cons, hhead, htail], hrest⟩

/-! #### What is not printed -/

lemma render_compound_congr (h : fs.map render = gs.map render) :
    (compound connector fs).render = (compound connector gs).render := by
  cases connector <;> simp [render, h]

/-- Marks are not printed. -/
lemma render_unmarked (f : Formula) : f.unmarked.render = f.render := by
  induction f with
  | atom a => exact Atom.render_unmarked a
  | compound connector children ih =>
    rw [unmarked_compound]
    refine render_compound_congr ?_
    rw [List.map_map]
    exact List.map_congr_left ih

end Formula

/-! ### Printed formulas and rules -/

open Formula

/-- **Printing is unambiguous.** Two well formed formulas without closing brackets in their texts
are printed alike if and only if they are the same but for the marks that their texts stand hashed,
and what is printed of one is never a proper beginning of what is printed of the other. Rules over
such formulas are printed alike if and only if, moreover, they have the same effect. -/
theorem render_unambiguous {f g : Formula} (hf : f.WellFormed) (hg : g.WellFormed)
    (hfree : f.BracketFree) (hfree' : g.BracketFree) :
    (f.render = g.render ↔ f.unmarked = g.unmarked) ∧
    (∀ rest, g.render = f.render ++ rest → rest = "") ∧
    ∀ e e' : Effect, (Rule.mk f e).render = (Rule.mk g e').render ↔
      e = e' ∧ f.unmarked = g.unmarked := by
  have hlegible := hg.legible hfree'
  have hdelimited := (hf.legible hfree).delimited
  have hsame : f.unmarked = g.unmarked → f.render = g.render := by
    intro h
    rw [← render_unmarked f, h, render_unmarked g]
  refine ⟨⟨fun h => ?_, hsame⟩, fun rest h => ?_, fun e e' => ⟨fun h => ?_, ?_⟩⟩
  · exact (hdelimited hlegible (congrArg (·.toList ++ []) h)).1
  · have hlists : f.render.toList ++ rest.toList = g.render.toList ++ [] := by
      rw [h, String.toList_append, List.append_nil]
    exact String.toList_eq_nil_iff.1 (hdelimited hlegible hlists).2
  · have hlists := congrArg String.toList h
    simp only [Rule.render, String.toList_append, List.append_assoc] at hlists
    obtain ⟨hformula, heffect⟩ := hdelimited hlegible (List.append_cancel_left hlists)
    have hname := String.toList_inj.1 (List.append_cancel_left heffect)
    exact ⟨Effect.spelled.injective hname, hformula⟩
  · rintro ⟨rfl, h⟩
    rw [Rule.render, Rule.render, hsame h]

/-- A formula with a mark, the same one without it, and one with a longer text. -/
theorem render_unambiguous_marks :
    let package (s : String) (hashed : Bool) : Formula :=
      .compound .or [.atom ⟨.packageName, .equal, .text s, hashed⟩, .negate (.versionIs (-3))]
    let f := package "AB" true
    let g := package "AB" false
    let longer := package "ABC" false
    (f.WellFormed ∧ f.BracketFree) ∧ (g.WellFormed ∧ g.BracketFree) ∧
    (longer.WellFormed ∧ longer.BracketFree) ∧ f ≠ g ∧ f.render = g.render ∧
    f.render ≠ longer.render ∧ (Rule.mk f .deny).render ≠ (Rule.mk g .allow).render := by
  intro package f g longer
  have hf : f.WellFormed ∧ f.BracketFree := by decide
  have hg : g.WellFormed ∧ g.BracketFree := by decide
  have hlonger : longer.WellFormed ∧ longer.BracketFree := by decide
  obtain ⟨hsame, -, hrules⟩ := render_unambiguous hf.1 hg.1 hf.2 hg.2
  obtain ⟨hdiffer, -⟩ := render_unambiguous hf.1 hlonger.1 hf.2 hlonger.2
  exact ⟨hf, hg, hlonger, by decide, hsame.2 rfl, mt hdiffer.1 (by decide),
    mt (hrules .deny .allow).1 nofun⟩

/-- With a bracket in a text, two children of a formula can be printed as three. -/
example :
    let package (s : String) : Formula := .atom ⟨.packageName, .equal, .text s, false⟩
    (Formula.compound .and [package "a) AND (PACKAGE_NAME EQ b", package "c"]).render =
      (Formula.compound .and [package "a", package "b", package "c"]).render := by
  decide

end InstallPolicy
