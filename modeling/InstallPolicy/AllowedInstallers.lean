import InstallPolicy.Rule

/-!
The installers that are allowed, each with its certificate, and the rule that they amount to.

The entries stand in strictly ascending order of the names, so that a table is determined by what
it says of each name, whatever the order in which it was filled. The rule denies every install by
a name and certificate that are not together in the table; an empty table amounts to no rule.
-/

namespace InstallPolicy

/-- Names of installers, each with its certificate. Texts are ordered by their code points, and so
by their UTF-8 bytes. -/
structure AllowedInstallers where
  entries : List (String × String) := []
  ascending : entries.Pairwise (·.1 < ·.1) := by simp

namespace AllowedInstallers

/-- Enters a name, in place of an earlier entry of it. -/
def insertEntry (name certificate : String) : List (String × String) → List (String × String)
  | [] => [(name, certificate)]
  | entry :: rest =>
    if name < entry.1 then (name, certificate) :: entry :: rest
    else if name = entry.1 then (name, certificate) :: rest
    else entry :: insertEntry name certificate rest

theorem mem_insertEntry {name certificate : String} {entries : List (String × String)}
    {e : String × String} (h : e ∈ insertEntry name certificate entries) :
    e = (name, certificate) ∨ e ∈ entries := by
  induction entries with
  | nil => simpa [insertEntry] using h
  | cons entry rest ih =>
    rw [insertEntry] at h
    split at h
    · simpa using h
    split at h
    · rcases List.mem_cons.1 h with h | h
      · exact .inl h
      · exact .inr (List.mem_cons_of_mem _ h)
    · rcases List.mem_cons.1 h with h | h
      · exact .inr (h ▸ List.mem_cons_self)
      · exact (ih h).imp_right (List.mem_cons_of_mem _)

theorem pairwise_insertEntry (name certificate : String) {entries : List (String × String)}
    (h : entries.Pairwise (·.1 < ·.1)) :
    (insertEntry name certificate entries).Pairwise (·.1 < ·.1) := by
  induction entries with
  | nil => simp [insertEntry]
  | cons entry rest ih =>
    obtain ⟨hentry, hrest⟩ := List.pairwise_cons.1 h
    rw [insertEntry]
    split
    · rename_i hlt
      refine List.pairwise_cons.2 ⟨fun e he => ?_, h⟩
      rcases List.mem_cons.1 he with rfl | he
      · exact hlt
      · exact String.lt_trans hlt (hentry e he)
    split
    · rename_i heq
      exact List.pairwise_cons.2 ⟨fun e he => heq ▸ hentry e he, hrest⟩
    · rename_i hlt hne
      refine List.pairwise_cons.2 ⟨fun e he => ?_, ih hrest⟩
      rcases mem_insertEntry he with rfl | he
      · rcases Std.lt_trichotomy name entry.1 with h | h | h
        · exact absurd h hlt
        · exact absurd h hne
        · exact h
      · exact hentry e he

theorem lookup_cons (name : String) (entry : String × String) (rest : List (String × String)) :
    (entry :: rest).lookup name = if name = entry.1 then some entry.2 else rest.lookup name := by
  rw [List.lookup_cons]
  split <;> simp_all

theorem lookup_insertEntry (name certificate other : String) (entries : List (String × String)) :
    (insertEntry name certificate entries).lookup other =
      if other = name then some certificate else entries.lookup other := by
  induction entries with
  | nil => simp [insertEntry]
  | cons entry rest ih =>
    rw [insertEntry]
    split
    · rw [lookup_cons]
    split
    · by_cases h : other = name <;> simp_all [lookup_cons]
    · by_cases h : other = entry.1 <;> by_cases h' : other = name <;> simp_all [lookup_cons]

def insert (m : AllowedInstallers) (name certificate : String) : AllowedInstallers :=
  ⟨insertEntry name certificate m.entries, pairwise_insertEntry name certificate m.ascending⟩

/-- The table of these entries, a later entry of a name in place of an earlier one. -/
def ofList (entries : List (String × String)) : AllowedInstallers :=
  entries.foldl (fun m e => m.insert e.1 e.2) {}

def certificate? (m : AllowedInstallers) (name : String) : Option String := m.entries.lookup name

/-- After an entry the table says of its name what was entered, and of other names what it said. -/
theorem certificate?_insert (m : AllowedInstallers) (name certificate other : String) :
    (m.insert name certificate).certificate? other =
      if other = name then some certificate else m.certificate? other :=
  lookup_insertEntry name certificate other m.entries

/-- The install comes from this installer, compared by its whole name. -/
def entryFormula (name certificate : String) : Formula :=
  .compound .and [.atom ⟨.installerName, .equal, .text name, false⟩,
    .atom ⟨.installerCertificate, .equal, .text certificate, false⟩]

/-- The install comes from one of the installers; no formula if there are none. -/
def formula? (m : AllowedInstallers) : Option Formula :=
  match m.entries.map fun e => entryFormula e.1 e.2 with
  | [] => none
  | [f] => some f
  | fs => some (.compound .or fs)

/-- The rule that denies all installs from elsewhere; no rule if there are no installers. -/
def rule? (m : AllowedInstallers) : Option Rule := m.formula?.map fun f => ⟨f.negate, .deny⟩

end AllowedInstallers

end InstallPolicy
