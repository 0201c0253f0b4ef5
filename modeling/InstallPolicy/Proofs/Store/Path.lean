import Mathlib.Data.List.Basic
import Mathlib.Tactic.Lemma
import InstallPolicy.Store.Path

/-!
What a new extension does to a path.

The text of a path is its parts with slashes between them. A path that ends with a name keeps all
parts but the last one when its extension is replaced, so the new path leads to a place in the same
folder; and it leads to the same place only if it is the same path.
-/

namespace InstallPolicy

namespace Path

/-! ### Texts and parts -/

lemma pieces_eq (cs : List Char) : pieces cs = cs.splitOn '/' := by
  induction cs with
  | nil => rfl
  | cons c cs ih =>
    rw [pieces, List.splitOn_cons_eq_if_modifyHead, ih]
    by_cases hc : c = '/'
    · simp [hc]
    · have hne : cs.splitOn '/' ≠ [] := List.splitOn_ne_nil _ _
      obtain ⟨piece, rest, hpieces⟩ := List.exists_cons_of_ne_nil hne
      simp [hc, hpieces]

lemma slash_notMem_of_mem_pieces {cs piece : List Char} (h : piece ∈ pieces cs) : '/' ∉ piece := by
  induction cs generalizing piece with
  | nil =>
    obtain rfl : piece = [] := by simpa [pieces] using h
    simp
  | cons c cs ih =>
    rw [pieces] at h
    split at h
    · rcases List.mem_cons.1 h with rfl | h
      · simp
      · exact ih h
    · rename_i hc
      cases hpieces : pieces cs with
      | nil =>
        obtain rfl : piece = [c] := by simpa [hpieces] using h
        simpa [eq_comm] using hc
      | cons first rest =>
        rw [hpieces] at h ih
        rcases List.mem_cons.1 h with rfl | h
        · simpa [eq_comm, hc] using ih List.mem_cons_self
        · exact ih (List.mem_cons_of_mem _ h)

/-- The parts before the last one: the way to the folder that the path's file is in. -/
def way (p : Path) : List String := p.parts.dropLast

lemma exists_parts_eq (p : Path) : ∃ name, p.parts = p.way ++ [name] := by
  have hparts : p.parts ≠ [] := by
    simp [parts, pieces_eq, List.splitOn_ne_nil]
  exact ⟨_, (List.dropLast_append_getLast hparts).symm⟩

def lead (before : List String) : List Char := before.flatMap fun part => part.toList ++ ['/']

lemma intercalate_append_singleton (before : List String) (last : List Char) :
    ['/'].intercalate (before.map String.toList ++ [last]) = lead before ++ last := by
  induction before with
  | nil => simp [lead]
  | cons part before ih =>
    have hne : before.map String.toList ++ [last] ≠ [] := by simp
    rw [List.map_cons, List.cons_append, List.intercalate_cons_of_ne_nil hne, ih]
    simp [lead]

variable {p : Path} {before : List String} {name extension : String}

lemma pieces_toList (p : Path) : pieces p.text.toList = p.parts.map String.toList := by
  simp [parts, Function.comp_def]

lemma slash_notMem_of_mem_parts {part : String} (h : part ∈ p.parts) : '/' ∉ part.toList := by
  obtain ⟨piece, hpiece, rfl⟩ := List.mem_map.1 h
  rw [String.toList_ofList]
  exact slash_notMem_of_mem_pieces hpiece

lemma toList_text (h : p.parts = before ++ [name]) :
    p.text.toList = lead before ++ name.toList := by
  have hpieces : p.text.toList.splitOn '/' = before.map String.toList ++ [name.toList] := by
    rw [← pieces_eq, pieces_toList, h, List.map_append]
    rfl
  rw [← intercalate_append_singleton, ← hpieces, List.intercalate_splitOn]

lemma parts_lead_append {last : List Char} (hbefore : ∀ part ∈ before, '/' ∉ part.toList)
    (hlast : '/' ∉ last) :
    (Path.mk (String.ofList (lead before ++ last))).parts = before ++ [String.ofList last] := by
  have hslash : ∀ piece ∈ before.map String.toList ++ [last], '/' ∉ piece := by
    intro piece hpiece
    rcases List.mem_append.1 hpiece with hpiece | hpiece
    · obtain ⟨part, hpart, rfl⟩ := List.mem_map.1 hpiece
      exact hbefore part hpart
    · rwa [List.mem_singleton.1 hpiece]
  rw [parts, String.toList_ofList, pieces_eq, ← intercalate_append_singleton,
    List.splitOn_intercalate '/' hslash (by simp)]
  simp [Function.comp_def]

lemma ext_parts {q : Path} (h : p.parts = q.parts) : p = q := by
  obtain ⟨s⟩ := p
  obtain ⟨t⟩ := q
  have hpieces : s.toList.splitOn '/' = t.toList.splitOn '/' := by
    rw [← pieces_eq, ← pieces_eq, pieces_toList ⟨s⟩, pieces_toList ⟨t⟩, h]
  have htext := congrArg (['/'].intercalate ·) hpieces
  simp only [List.intercalate_splitOn] at htext
  rw [String.toList_inj.1 htext]

lemma ofParts_append_singleton (before : List String) (last : String) :
    ofParts (before ++ [last]) = ⟨String.ofList (lead before ++ last.toList)⟩ := by
  have htext : ("/".intercalate (before ++ [last])).toList = lead before ++ last.toList := by
    rw [String.toList_intercalate, List.map_append, List.map_singleton]
    exact intercalate_append_singleton before last.toList
  rw [ofParts, ← htext, String.ofList_toList]

/-! ### Extensions -/

/-- A name has an extension behind a dot, and something before the dot, or it has none. -/
lemma splitName_cases (cs : List Char) :
    (∃ stem extension, stem ≠ [] ∧ cs = stem ++ '.' :: extension ∧
      splitName cs = (stem, extension)) ∨ splitName cs = (cs, []) := by
  have hsplit := List.takeWhile_append_dropWhile (p := (· != '.')) (l := cs.reverse)
  rw [splitName]
  split
  · rename_i dot c before hdrop
    have hdot : dot = '.' := by
      have hne : cs.reverse.dropWhile (· != '.') ≠ [] := by simp [hdrop]
      simpa [hdrop] using List.head_dropWhile_not (· != '.') hne
    refine .inl ⟨_, _, by simp, ?_, rfl⟩
    rw [hdrop, hdot] at hsplit
    simpa using (congrArg List.reverse hsplit).symm
  · exact .inr rfl

lemma name?_eq_some (h : p.parts = before ++ [name]) (hidle : isIdle name = false)
    (hup : name ≠ "..") : p.name? = some (before, name) := by
  simp [name?, h, hidle, hup]

lemma name?_eq_none (h : p.parts = before ++ [".."]) : p.name? = none := by
  have hidle : isIdle ".." = false := by decide
  simp [name?, h, hidle]

lemma withExtension_of_name?_eq_none (h : p.name? = none) : p.withExtension extension = p := by
  rw [withExtension, h]
  simp [setExtension, h]

lemma exists_parts_setExtension (h : p.parts = before ++ [name]) (hidle : isIdle name = false)
    (hextension : '/' ∉ extension.toList) :
    ∃ last, (p.setExtension extension).parts = before ++ [last] := by
  by_cases hup : name = ".."
  · subst hup
    rw [setExtension, name?_eq_none h]
    exact ⟨_, h⟩
  · have hparts : ∀ part ∈ before ++ [name], '/' ∉ part.toList :=
      fun part hpart => slash_notMem_of_mem_parts (h ▸ hpart)
    have hstem : '/' ∉ (splitName name.toList).1 := by
      have hname := hparts name (by simp)
      rcases splitName_cases name.toList with ⟨stem, old, -, hold, hsplit⟩ | hsplit
      · rw [hsplit]
        rw [hold] at hname
        exact fun hmem => hname (List.mem_append_left _ hmem)
      · rwa [hsplit]
    rw [setExtension, name?_eq_some h hidle hup]
    simp only [ofParts_append_singleton]
    refine ⟨_, parts_lead_append (fun part hpart => hparts part (by simp [hpart])) ?_⟩
    simp [hstem, hextension]

/-- A new extension leaves all parts before the last one as they are. -/
lemma exists_parts_withExtension (h : p.parts = before ++ [name]) (hidle : isIdle name = false)
    (hup : name ≠ "..") (hextension : '/' ∉ extension.toList) :
    ∃ last, (p.withExtension extension).parts = before ++ [last] := by
  have hparts : ∀ part ∈ before ++ [name], '/' ∉ part.toList :=
    fun part hpart => slash_notMem_of_mem_parts (h ▸ hpart)
  have hbefore : ∀ part ∈ before, '/' ∉ part.toList :=
    fun part hpart => hparts part (by simp [hpart])
  have hname : '/' ∉ name.toList := hparts name (by simp)
  rw [withExtension, name?_eq_some h hidle hup, toList_text h, Option.map_some, Option.getD_some]
  rcases splitName_cases name.toList with ⟨stem, old, hstem, hold, hsplit⟩ | hsplit
  · -- The old extension is taken off, which leaves a name that ends with a dot.
    have hleft : (lead before ++ name.toList).take
        ((lead before ++ name.toList).length - (splitName name.toList).2.length) =
          lead before ++ (stem ++ ['.']) := by
      have htext : lead before ++ name.toList = lead before ++ (stem ++ ['.']) ++ old := by
        simp [hold]
      rw [hsplit, htext, List.length_append, Nat.add_sub_cancel]
      exact List.take_left
    have hdot : '/' ∉ stem ++ ['.'] := by
      rw [hold] at hname
      simpa using fun hmem => hname (List.mem_append_left _ hmem)
    have hidle' : isIdle (String.ofList (stem ++ ['.'])) = false := by
      obtain ⟨c, stem, rfl⟩ := List.exists_cons_of_ne_nil hstem
      simp [isIdle, ← String.toList_inj]
    rw [hleft]
    exact exists_parts_setExtension (parts_lead_append hbefore hdot) hidle' hextension
  · have hleft : (lead before ++ name.toList).take
        ((lead before ++ name.toList).length - (splitName name.toList).2.length) =
          lead before ++ name.toList := by
      rw [hsplit, List.length_nil, Nat.sub_zero, List.take_length]
    rw [hleft]
    refine exists_parts_setExtension (parts_lead_append hbefore hname) ?_ hextension
    rwa [String.ofList_toList]

end Path

end InstallPolicy
