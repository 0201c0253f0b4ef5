import InstallPolicy.Proofs.Store.Path
import InstallPolicy.Store.File

/-!
What an operation on a file changes in a directory.

A path leads to one place, whatever stands there, or nowhere. Every operation that is done changes
what stands at the places of its own paths, and it neither makes nor removes a folder, so other
paths lead where they led before. A file is replaced in full, or everything but the temporary file
is as it was.
-/

namespace InstallPolicy

/-! ### Places -/

lemma Location.enter_inj {l : Location} {name last : String} (hidle : Path.isIdle name = false)
    (hup : name ≠ "..") (h : l.enter last = l.enter name) : last = name := by
  obtain ⟨rise, names⟩ := l
  have hname : Location.enter ⟨rise, names⟩ name = ⟨rise, names ++ [name]⟩ := by
    simp [enter, hidle, hup]
  rw [hname] at h
  unfold enter at h
  split at h
  · simp at h
  · split at h
    · -- One folder up, there are not more names than before.
      cases names with
      | nil => simp [above] at h
      | cons first rest =>
        have hlength := congrArg (List.length ∘ Location.names) h
        simp [above] at hlength
        omega
    · simpa using h

/-- The place that a path leads to from the root, if it leads anywhere. -/
def Path.location (p : Path) : Location := p.parts.foldl Location.enter {}

namespace Directory

variable {d d' : Directory} {p source target temporary : Path} {content : Bytes}
  {l m : Location} {parts : List String}

/-! ### Following a path -/

lemma follow_append (d : Directory) (l : Location) (before parts : List String) :
    d.follow l (before ++ parts) = (d.follow l before).bind fun m => d.follow m parts := by
  induction before generalizing l with
  | nil => rfl
  | cons part before ih =>
    rw [List.cons_append, follow, follow]
    split
    · rfl
    · rfl
    · split
      · exact ih _
      · rfl

lemma eq_foldl_of_follow (h : d.follow l parts = .ok m) : m = parts.foldl Location.enter l := by
  induction parts generalizing l with
  | nil => simpa [follow] using h.symm
  | cons part parts ih =>
    rw [follow] at h
    split at h
    · contradiction
    · contradiction
    · split at h
      · exact ih h
      · contradiction

lemma follow_singleton_eq_ok {part : String} (h : d.follow l [part] = .ok m) :
    d.get? l = some .folder ∧ m = l.enter part := by
  refine ⟨?_, eq_foldl_of_follow h⟩
  rw [follow] at h
  split at h
  · contradiction
  · contradiction
  · assumption

lemma locate_eq_ok_iff : d.locate p = .ok m ↔
    (Bytes.ofText p.text ≠ [] ∧ (Bytes.ofText p.text).length ≤ maxPathBytes ∧
      0 ∉ Bytes.ofText p.text) ∧ d.follow {} p.parts = .ok m := by
  simp only [locate]
  split
  · simp [*]
  · split <;> simp [*]

lemma locate_eq_missing_iff : d.locate p = .error .missing ↔ Bytes.ofText p.text = [] ∨
    ((Bytes.ofText p.text).length ≤ maxPathBytes ∧ 0 ∉ Bytes.ofText p.text) ∧
      d.follow {} p.parts = .error .missing := by
  simp only [locate]
  split
  · simp [*]
  · split <;> simp [*]

lemma eq_location (h : d.locate p = .ok m) : m = p.location :=
  eq_foldl_of_follow (locate_eq_ok_iff.1 h).2

def FoldersKept (d d' : Directory) : Prop := ∀ m, d.get? m = some .folder → d'.get? m = some .folder

lemma follow_of_foldersKept (hfolders : FoldersKept d d') (h : d.follow l parts = .ok m) :
    d'.follow l parts = .ok m := by
  induction parts generalizing l with
  | nil => exact h
  | cons part parts ih =>
    rw [follow] at h
    split at h
    · contradiction
    · contradiction
    · rename_i hfolder
      split at h
      · rename_i hlength
        rw [follow, hfolders _ hfolder]
        simpa only [hlength, if_true] using ih h
      · contradiction

lemma locate_of_foldersKept (hfolders : FoldersKept d d') (h : d.locate p = .ok m) :
    d'.locate p = .ok m := by
  obtain ⟨htext, hfollow⟩ := locate_eq_ok_iff.1 h
  exact locate_eq_ok_iff.2 ⟨htext, follow_of_foldersKept hfolders hfollow⟩

lemma follow_missing_of_foldersKept (hfolders : FoldersKept d d')
    (hnothing : ∀ m, d.get? m = none → d'.get? m = none) (h : d.follow l parts = .error .missing) :
    d'.follow l parts = .error .missing := by
  induction parts generalizing l with
  | nil => contradiction
  | cons part parts ih =>
    rw [follow] at h ⊢
    split at h
    · rename_i hnone
      rw [hnothing _ hnone]
    · cases h
    · rename_i hfolder
      rw [hfolders _ hfolder]
      split at h
      · rename_i hlength
        simpa only [hlength, if_true] using ih h
      · cases h

/-! ### Single operations -/

lemma bind_eq_ok_iff {α β : Type} {x : Except Obstacle α} {f : α → Except Obstacle β} {b : β} :
    (x >>= f) = .ok b ↔ ∃ a, x = .ok a ∧ f a = .ok b := by
  cases x <;> simp [bind, Except.bind]

lemma locate_and_iff {P : Location → Prop} :
    (∃ l, d.locate p = .ok l ∧ P l) ↔ d.locate p = .ok p.location ∧ P p.location := by
  constructor
  · rintro ⟨l, hl, h⟩
    obtain rfl := eq_location hl
    exact ⟨hl, h⟩
  · exact fun h => ⟨_, h⟩

lemma read_eq_ok_iff : d.read p = .ok content ↔
    d.locate p = .ok p.location ∧ d.get? p.location = some (.file content) := by
  rw [read, bind_eq_ok_iff, locate_and_iff]
  refine and_congr_right fun _ => ?_
  split <;> simp [*, throw, throwThe, MonadExceptOf.throw, pure, Except.pure]

lemma read_eq_missing_iff : d.read p = .error .missing ↔
    d.locate p = .error .missing ∨ d.locate p = .ok p.location ∧ d.get? p.location = none := by
  rw [read]
  cases hl : d.locate p with
  | error o => simp [bind, Except.bind]
  | ok l =>
    obtain rfl := eq_location hl
    simp only [bind, Except.bind]
    split <;> simp [*, throw, throwThe, MonadExceptOf.throw, pure, Except.pure]

lemma write_eq_ok_iff : d.write p content = .ok d' ↔
    d.locate p = .ok p.location ∧ d.get? p.location ≠ some .folder ∧
      d' = d.set p.location (.file content) := by
  rw [write, bind_eq_ok_iff, locate_and_iff]
  refine and_congr_right fun _ => ?_
  split
  · rename_i hfolder
    simp [hfolder, throw, throwThe, MonadExceptOf.throw]
  · rename_i hfolder
    rw [and_iff_right hfolder]
    simp [pure, Except.pure, eq_comm]

lemma rename_eq_ok_iff : d.rename source target = .ok d' ↔ ∃ content,
    d.read source = .ok content ∧ d.locate source = .ok source.location ∧
      d.locate target = .ok target.location ∧ d.get? target.location ≠ some .folder ∧
      d' = (d.erase source.location).set target.location (.file content) := by
  rw [rename, bind_eq_ok_iff]
  refine exists_congr fun content => and_congr_right fun _ => ?_
  rw [bind_eq_ok_iff, locate_and_iff]
  refine and_congr_right fun _ => ?_
  rw [bind_eq_ok_iff, locate_and_iff]
  refine and_congr_right fun _ => ?_
  split
  · rename_i hfolder
    simp [hfolder, throw, throwThe, MonadExceptOf.throw]
  · rename_i hfolder
    rw [and_iff_right hfolder]
    simp [pure, Except.pure, eq_comm]

lemma remove_eq_ok_iff : d.remove p = .ok d' ↔
    (∃ content, d.read p = .ok content) ∧ d.locate p = .ok p.location ∧
      d' = d.erase p.location := by
  rw [remove, bind_eq_ok_iff, ← exists_and_right]
  refine exists_congr fun content => and_congr_right fun _ => ?_
  rw [bind_eq_ok_iff, locate_and_iff]
  simp [pure, Except.pure, eq_comm]

/-! ### A path whose folder is there -/

/-- A path leads somewhere only by way of a folder. -/
lemma follow_way_of_locate (h : d.locate p = .ok p.location) :
    ∃ l, d.follow {} p.way = .ok l ∧ d.get? l = some .folder := by
  obtain ⟨name, hname⟩ := p.exists_parts_eq
  have hfollow := (locate_eq_ok_iff.1 h).2
  rw [hname, follow_append] at hfollow
  obtain ⟨l, hl, hstep⟩ := bind_eq_ok_iff.1 hfollow
  exact ⟨l, hl, (follow_singleton_eq_ok hstep).1⟩

/-- Where a path leads to from a folder that stays does not depend on what else is changed. -/
lemma locate_congr (hfolders : FoldersKept d d') (hway : d.follow {} p.way = .ok l)
    (hl : d.get? l = some .folder) : d'.locate p = d.locate p := by
  obtain ⟨name, hname⟩ := p.exists_parts_eq
  have hsteps : ∀ e : Directory, e.follow {} p.way = .ok l → e.get? l = some .folder →
      e.follow {} p.parts = if (Bytes.ofText name).length ≤ maxNameBytes then .ok (l.enter name)
        else .error .notPath := by
    intro e hway hl
    rw [hname, follow_append, hway, Except.bind, follow, hl]
    rfl
  rw [locate, locate, hsteps d hway hl,
    hsteps d' (follow_of_foldersKept hfolders hway) (hfolders l hl)]

lemma read_congr (hlocate : d'.locate p = d.locate p)
    (hget : d'.get? p.location = d.get? p.location) : d'.read p = d.read p := by
  rw [read, read, hlocate]
  cases hl : d.locate p with
  | error o => rfl
  | ok l =>
    obtain rfl := eq_location hl
    simp only [bind, Except.bind, hget]

/-! ### Replacing a file -/

/-- A file can be put where the path leads to. -/
def Admits (d : Directory) (p : Path) : Prop :=
  d.locate p = .ok p.location ∧ d.get? p.location ≠ some .folder

lemma foldersKept_set {e : Entry} (hl : d.get? l ≠ some .folder) : FoldersKept d (d.set l e) := by
  intro m hm
  have hml : m ≠ l := by
    rintro rfl
    exact hl hm
  rw [get?_set, if_neg hml, hm]

lemma read_of_write (h : d.write p content = .ok d') : d'.read p = .ok content := by
  obtain ⟨hlocate, hfolder, rfl⟩ := write_eq_ok_iff.1 h
  refine read_eq_ok_iff.2 ⟨locate_of_foldersKept (foldersKept_set hfolder) hlocate, ?_⟩
  rw [get?_set, if_pos rfl]

/-- Everything but one path's file is as it was, and there is no such file. -/
structure DiffersAt (d d' : Directory) (p : Path) : Prop where
  elsewhere : ∀ m ≠ p.location, d'.get? m = d.get? m
  there : d'.get? p.location = d.get? p.location ∨
    d.get? p.location ≠ some .folder ∧ d'.get? p.location = p.location.standing
  noFile : ∀ content, d'.read p ≠ .ok content

lemma differsAt_discard (d : Directory) (p : Path) : DiffersAt d (d.discard p) p := by
  rw [discard]
  cases hremove : d.remove p with
  | error o =>
    change DiffersAt d d p
    refine ⟨fun m _ => rfl, .inl rfl, fun content hread => ?_⟩
    have hlocate := (read_eq_ok_iff.1 hread).1
    have hremoved := remove_eq_ok_iff.2 ⟨⟨content, hread⟩, hlocate, rfl⟩
    simp [hremove] at hremoved
  | ok d' =>
    obtain ⟨⟨content, hread⟩, -, rfl⟩ := remove_eq_ok_iff.1 hremove
    have hfile := (read_eq_ok_iff.1 hread).2
    change DiffersAt d (d.erase p.location) p
    refine ⟨fun m hm => ?_, .inr ⟨?_, ?_⟩, fun other hother => ?_⟩
    · rw [get?_erase, if_neg hm]
    · simp [hfile]
    · rw [get?_erase, if_pos rfl]
    · have hstanding := (read_eq_ok_iff.1 hother).2
      rw [get?_erase, if_pos rfl, Location.standing] at hstanding
      split at hstanding <;> simp at hstanding

lemma differsAt_discard_of_write (h : d.write p content = .ok d') :
    DiffersAt d (d'.discard p) p := by
  obtain ⟨-, hfolder, rfl⟩ := write_eq_ok_iff.1 h
  obtain ⟨helsewhere, -, hnoFile⟩ := differsAt_discard (d.set p.location (.file content)) p
  have hremoved : (d.set p.location (.file content)).remove p =
      .ok ((d.set p.location (.file content)).erase p.location) :=
    remove_eq_ok_iff.2 ⟨⟨content, read_of_write h⟩, (read_eq_ok_iff.1 (read_of_write h)).1, rfl⟩
  refine ⟨fun m hm => ?_, .inr ⟨hfolder, ?_⟩, hnoFile⟩
  · rw [helsewhere m hm, get?_set, if_neg hm]
  · rw [discard, hremoved]
    exact (get?_erase _ _ _).trans (if_pos rfl)

/-- How the temporary file is written: in full, or with what is left of it, or not at all. -/
lemma writeTemporary_cases (d : Directory) (temporary : Path) (content : Bytes) (mishap : Mishap) :
    (∃ d', d.writeTemporary temporary content mishap = (true, d') ∧
      d.write temporary content = .ok d') ∨
    ∃ d', d.writeTemporary temporary content mishap = (false, d') ∧
      (d' = d ∨ ∃ left, d.write temporary left = .ok d') := by
  cases mishap with
  | writing left =>
    refine .inr ⟨_, rfl, ?_⟩
    cases left with
    | none => exact .inl rfl
    | some left =>
      rw [Option.bind_some]
      cases hwrite : d.write temporary left with
      | error o => exact .inl rfl
      | ok d' => exact .inr ⟨left, hwrite⟩
  | _ =>
    simp only [writeTemporary]
    cases hwrite : d.write temporary content with
    | error o => exact .inr ⟨d, rfl, .inl rfl⟩
    | ok d' => exact .inl ⟨d', rfl, rfl⟩

lemma moveTemporary_cases (d : Directory) (temporary target : Path) (mishap : Mishap) :
    (∃ d', d.moveTemporary temporary target mishap = (true, d') ∧
      d.rename temporary target = .ok d') ∨
    d.moveTemporary temporary target mishap = (false, d) := by
  cases hrename : d.rename temporary target with
  | error o => cases mishap <;> simp [moveTemporary, hrename]
  | ok d' => cases mishap <;> simp [moveTemporary, hrename]

lemma replace_cases (d : Directory) (temporary target : Path) (content : Bytes) (mishap : Mishap) :
    (∃ written d', d.replace temporary target content mishap = (true, d') ∧
      d.write temporary content = .ok written ∧ written.rename temporary target = .ok d') ∨
    ∃ written, d.replace temporary target content mishap = (false, written.discard temporary) ∧
      (written = d ∨ ∃ left, d.write temporary left = .ok written) := by
  rcases writeTemporary_cases d temporary content mishap with
    ⟨written, hwritten, hwrite⟩ | ⟨written, hwritten, hwrite⟩
  · rcases moveTemporary_cases written temporary target mishap with ⟨d', hmoved, hrename⟩ | hmoved
    · exact .inl ⟨written, d', by simp [replace, hwritten, hmoved], hwrite, hrename⟩
    · exact .inr ⟨written, by simp [replace, hwritten, hmoved], .inr ⟨content, hwrite⟩⟩
  · exact .inr ⟨written, by simp [replace, hwritten], hwrite⟩

/-- A file that is not replaced leaves no more than a temporary file that is removed. -/
theorem differsAt_of_replace {mishap : Mishap}
    (h : d.replace temporary target content mishap = (false, d')) : DiffersAt d d' temporary := by
  rcases replace_cases d temporary target content mishap with
    ⟨written, done, hdone, -⟩ | ⟨written, hfailed, hwrite⟩
  · simp [hdone] at h
  · obtain rfl : written.discard temporary = d' := by simpa [hfailed] using h
    rcases hwrite with rfl | ⟨left, hwrite⟩
    · exact differsAt_discard written temporary
    · exact differsAt_discard_of_write hwrite

/-- A file that is replaced goes from the place of the temporary one to its own. -/
lemma replace_eq_true {mishap : Mishap}
    (h : d.replace temporary target content mishap = (true, d')) :
    d.Admits temporary ∧ d.Admits target ∧
      d' = ((d.set temporary.location (.file content)).erase temporary.location).set
        target.location (.file content) := by
  rcases replace_cases d temporary target content mishap with
    ⟨written, done, hdone, hwrite, hrename⟩ | ⟨written, hfailed, -⟩
  · obtain rfl : done = d' := by simpa [hdone] using h
    obtain ⟨found, hfound, -, hgoal, hfolder, rfl⟩ := rename_eq_ok_iff.1 hrename
    obtain rfl : content = found := by simpa [read_of_write hwrite] using hfound
    obtain ⟨hstart, hstartFolder, rfl⟩ := write_eq_ok_iff.1 hwrite
    -- The temporary file is no folder, so the way to the target was there before it.
    have hback : FoldersKept (d.set temporary.location (.file content)) d := by
      intro m hm
      rw [get?_set] at hm
      split at hm
      · simp at hm
      · exact hm
    refine ⟨⟨hstart, hstartFolder⟩, ⟨locate_of_foldersKept hback hgoal, ?_⟩, rfl⟩
    rw [get?_set] at hfolder
    split at hfolder
    · rename_i hsame
      rwa [hsame]
    · exact hfolder
  · simp [hfailed] at h

/-- A replaced file is at its place, nothing is at that of the temporary one, and all else is as it
was. -/
lemma get?_of_replace {mishap : Mishap}
    (h : d.replace temporary target content mishap = (true, d')) (m : Location) :
    d'.get? m = if m = target.location then some (.file content)
      else if m = temporary.location then m.standing else d.get? m := by
  obtain ⟨-, -, rfl⟩ := replace_eq_true h
  rw [get?_set, get?_erase, get?_set]
  split_ifs with hgoal hstart
  · rfl
  · rw [hstart]
  · rfl

lemma foldersKept_of_replace {mishap : Mishap}
    (h : d.replace temporary target content mishap = (true, d')) : FoldersKept d d' := by
  obtain ⟨⟨-, hstart⟩, ⟨-, hgoal⟩, -⟩ := replace_eq_true h
  intro m hm
  have hm' : m ≠ target.location ∧ m ≠ temporary.location := by
    constructor
    · rintro rfl
      exact hgoal hm
    · rintro rfl
      exact hstart hm
  rw [get?_of_replace h, if_neg hm'.1, if_neg hm'.2, hm]

/-- A file that is replaced has its new content. -/
theorem read_of_replace {mishap : Mishap}
    (h : d.replace temporary target content mishap = (true, d')) :
    d'.read target = .ok content := by
  have hgoal := (replace_eq_true h).2.1.1
  refine read_eq_ok_iff.2 ⟨locate_of_foldersKept (foldersKept_of_replace h) hgoal, ?_⟩
  rw [get?_of_replace h, if_pos rfl]

/-- If nothing goes wrong, a file is replaced wherever there can be one. -/
theorem exists_replace (content : Bytes) (htemporary : d.Admits temporary)
    (htarget : d.Admits target) :
    ∃ d', d.replace temporary target content .none = (true, d') := by
  obtain ⟨hstart, hstartFolder⟩ := htemporary
  obtain ⟨hgoal, hgoalFolder⟩ := htarget
  obtain ⟨written, hwrite, hset⟩ : ∃ written, d.write temporary content = .ok written ∧
      written = d.set temporary.location (.file content) :=
    ⟨_, write_eq_ok_iff.2 ⟨hstart, hstartFolder, rfl⟩, rfl⟩
  have hread := read_of_write hwrite
  have hwritten : written.Admits target := by
    subst hset
    refine ⟨locate_of_foldersKept (foldersKept_set hstartFolder) hgoal, ?_⟩
    rw [get?_set]
    split
    · simp
    · exact hgoalFolder
  obtain ⟨d', hrename⟩ : ∃ d', written.rename temporary target = .ok d' := ⟨_, rename_eq_ok_iff.2
    ⟨content, hread, (read_eq_ok_iff.1 hread).1, hwritten.1, hwritten.2, rfl⟩⟩
  exact ⟨d', by simp [replace, writeTemporary, moveTemporary, hwrite, hrename]⟩

/-! ### What a changed directory still shows -/

namespace DiffersAt

lemma foldersKept (h : DiffersAt d d' temporary) : FoldersKept d d' := by
  intro m hm
  by_cases hml : m = temporary.location
  · subst hml
    rcases h.there with hsame | ⟨hfolder, -⟩
    · rw [hsame, hm]
    · exact absurd hm hfolder
  · rw [h.elsewhere m hml, hm]

lemma get?_eq_none (h : DiffersAt d d' temporary) (hm : d.get? m = none) : d'.get? m = none := by
  by_cases hml : m = temporary.location
  · subst hml
    rcases h.there with hsame | ⟨-, hstanding⟩
    · rw [hsame, hm]
    · rw [hstanding]
      exact (Option.or_eq_none_iff.1 hm).2
  · rw [h.elsewhere m hml, hm]

lemma read_eq_missing (h : DiffersAt d d' temporary) (hread : d.read p = .error .missing) :
    d'.read p = .error .missing := by
  refine read_eq_missing_iff.2 ((read_eq_missing_iff.1 hread).imp (fun hlocate => ?_) ?_)
  · refine locate_eq_missing_iff.2 ((locate_eq_missing_iff.1 hlocate).imp_right ?_)
    exact fun ⟨htext, hfollow⟩ => ⟨htext,
      follow_missing_of_foldersKept h.foldersKept (fun m => h.get?_eq_none) hfollow⟩
  · exact fun ⟨hlocate, hnone⟩ =>
      ⟨locate_of_foldersKept h.foldersKept hlocate, h.get?_eq_none hnone⟩

lemma read_eq_ok (h : DiffersAt d d' temporary) (hne : p.location ≠ temporary.location)
    (hread : d.read p = .ok content) : d'.read p = .ok content := by
  obtain ⟨hlocate, hfile⟩ := read_eq_ok_iff.1 hread
  refine read_eq_ok_iff.2 ⟨locate_of_foldersKept h.foldersKept hlocate, ?_⟩
  rw [h.elsewhere _ hne, hfile]

end DiffersAt

/-- A path with a file and the path with another extension lead to two places, or they are one
path. -/
theorem location_withExtension_ne {extension : String} (hread : d.read p = .ok content)
    (hextension : '/' ∉ extension.toList) (hne : p ≠ p.withExtension extension) :
    p.location ≠ (p.withExtension extension).location := by
  obtain ⟨hlocate, hfile⟩ := read_eq_ok_iff.1 hread
  obtain ⟨name, hname⟩ := p.exists_parts_eq
  have hlast : ∀ {q : Path} {last : String}, q.parts = p.way ++ [last] →
      q.location = (p.way.foldl Location.enter {}).enter last := by
    intro q last hq
    simp [Path.location, hq]
  -- The last part is entered from a folder, so it leads to a file only if it is a name.
  have hfolder : d.get? (p.way.foldl Location.enter {}) = some .folder := by
    obtain ⟨l, hl, hfolder⟩ := follow_way_of_locate hlocate
    rwa [← eq_foldl_of_follow hl]
  have hidle : Path.isIdle name = false := by
    by_contra hidle
    rw [hlast hname, Location.enter, if_pos (by simpa using hidle), hfolder] at hfile
    simp at hfile
  have hup : name ≠ ".." := by
    rintro rfl
    exact hne (Path.withExtension_of_name?_eq_none (Path.name?_eq_none hname)).symm
  obtain ⟨last, hother⟩ := Path.exists_parts_withExtension hname hidle hup hextension
  intro hlocation
  rw [hlast hname, hlast hother] at hlocation
  obtain rfl := Location.enter_inj hidle hup hlocation.symm
  exact hne (Path.ext_parts (hname.trans hother.symm))

end Directory

end InstallPolicy
