import InstallPolicy.Proofs.Store.File

/-!
Several stores in one folder.

A call touches two places only, that of the store's file and that of its temporary file, and of
the latter no more becomes of it than that a file there is lost. So stores with different
files do not disturb each other, unless the file of the one is the temporary file of the other. In
that case the one keeps its rules only until rules go to the other.
-/

namespace InstallPolicy

namespace FileStore

variable {store a b : FileStore} {d d' start after : Directory} {rules : List Rule}

/-! ### One call -/

lemma exists_replace_of_save {mishap : Mishap} (h : (store.save rules d mishap).outcome = .ok ()) :
    ∃ document, Document.encodeRules rules = .ok document ∧
      d.replace store.temporary store.path (withChecksum document) mishap =
        (true, (store.save rules d mishap).directory) := by
  unfold save at h ⊢
  cases hencode : Document.encodeRules rules with
  | error cause => simp [hencode] at h
  | ok document =>
    rcases hreplace : d.replace store.temporary store.path (withChecksum document) mishap with
      ⟨_ | _, d'⟩
    · simp [hencode, hreplace] at h
    · exact ⟨document, rfl, by simp [hreplace]⟩

/-- What stands at a place is as it was, or it was the temporary file of the store and is gone. -/
def Spared (store : FileStore) (d d' : Directory) (m : Location) : Prop :=
  d'.get? m = d.get? m ∨
    m = store.temporary.location ∧ (∃ content, d.get? m = some (.file content)) ∧
      d'.get? m = m.standing

lemma spared_of_temporary {m : Location} (hm : m = store.temporary.location)
    (hfolder : d.get? m ≠ some .folder) (hgone : d'.get? m = m.standing) :
    store.Spared d d' m := by
  cases hget : d.get? m with
  | none =>
    -- Nothing was entered there, so nothing stands there by itself.
    have hstanding : m.standing = none := (Option.or_eq_none_iff.1 hget).2
    exact .inl (by rw [hgone, hstanding, hget])
  | some e =>
    cases e with
    | folder => exact absurd hget hfolder
    | file content => exact .inr ⟨hm, ⟨content, hget⟩, hgone⟩

/-- A call spares all places but that of the store's own file. -/
lemma spared_of_save (store : FileStore) (rules : List Rule) (d : Directory) (mishap : Mishap)
    {m : Location} (hm : m ≠ store.path.location) :
    store.Spared d (store.save rules d mishap).directory m := by
  rcases save_cases store rules d mishap with
    ⟨cause, -, hsave⟩ | ⟨d', -, hsave⟩ | ⟨d', hdiffers, hsave⟩
  · rw [hsave]
    left
    rfl
  · have hok : (store.save rules d mishap).outcome = .ok () := by rw [hsave]
    obtain ⟨document, -, hreplace⟩ := exists_replace_of_save hok
    have hget := Directory.get?_of_replace hreplace m
    rw [if_neg hm] at hget
    by_cases htemporary : m = store.temporary.location
    · have hfolder := (Directory.replace_eq_true hreplace).1.2
      rw [← htemporary] at hfolder
      exact spared_of_temporary htemporary hfolder (hget.trans (if_pos htemporary))
    · exact .inl (hget.trans (if_neg htemporary))
  · rw [hsave]
    by_cases htemporary : m = store.temporary.location
    · have hthere := hdiffers.there
      rw [← htemporary] at hthere
      rcases hthere with hsame | ⟨hfolder, hgone⟩
      · exact .inl hsame
      · exact spared_of_temporary htemporary hfolder hgone
    · exact .inl (hdiffers.elsewhere m htemporary)

/-- The files of two stores are in one folder: the ways to them lead to it, or fail alike. -/
def SameFolder (d : Directory) (a b : FileStore) : Prop :=
  d.follow {} a.path.way = d.follow {} b.path.way

/-- What a call that ends well on one of two stores in a folder tells about the other. -/
lemma sameFolder_of_save (hfolder : SameFolder d a b)
    (h : (b.save rules d).outcome = .ok ()) :
    SameFolder (b.save rules d).directory a b ∧
      (b.save rules d).directory.locate a.path = d.locate a.path := by
  obtain ⟨document, -, hreplace⟩ := exists_replace_of_save h
  have hkept := Directory.foldersKept_of_replace hreplace
  have hlocate := (Directory.replace_eq_true hreplace).2.1.1
  obtain ⟨l, hway, hl⟩ := Directory.follow_way_of_locate hlocate
  have hway' : d.follow {} a.path.way = .ok l := hfolder.trans hway
  refine ⟨?_, Directory.locate_congr hkept hway' hl⟩
  rw [SameFolder, Directory.follow_of_foldersKept hkept hway,
    Directory.follow_of_foldersKept hkept hway']

lemma locate_path_of_save (h : (a.save rules d).outcome = .ok ()) :
    (a.save rules d).directory.locate a.path = d.locate a.path := by
  obtain ⟨document, -, hreplace⟩ := exists_replace_of_save h
  have hlocate := (Directory.replace_eq_true hreplace).2.1.1
  rw [hlocate, Directory.locate_of_foldersKept (Directory.foldersKept_of_replace hreplace) hlocate]

/-- A call on another store leaves a store's file as it is, or as absent as it is. -/
lemma read_path_of_save (hfolder : SameFolder d a b) (hplace : a.path.location ≠ b.path.location)
    (htemporary : a.path.location ≠ b.temporary.location)
    (h : (b.save rules d).outcome = .ok ()) :
    (b.save rules d).directory.read a.path = d.read a.path := by
  refine Directory.read_congr (sameFolder_of_save hfolder h).2 ?_
  rcases spared_of_save b rules d .none hplace with hsame | ⟨hlost, -⟩
  · exact hsame
  · exact absurd hlost htemporary

/-- A call on a store takes away what is at the place of its temporary file. -/
lemma get?_temporary_of_save (hplace : b.temporary.location ≠ b.path.location)
    (h : (b.save rules d).outcome = .ok ()) :
    (b.save rules d).directory.get? b.temporary.location = b.temporary.location.standing := by
  obtain ⟨document, -, hreplace⟩ := exists_replace_of_save h
  rw [Directory.get?_of_replace hreplace, if_neg hplace, if_pos rfl]

/-! ### Many calls -/

structure Delivery where
  store : FileStore
  rules : List Rule

/-- The directory after these deliveries, if all of them end well. -/
def deliver? (d : Directory) : List Delivery → Option Directory
  | [] => some d
  | delivery :: deliveries =>
    let saved := delivery.store.save delivery.rules d
    match saved.outcome with
    | .ok () => deliver? saved.directory deliveries
    | .error _ => none

def lastFor (store : FileStore) (deliveries : List Delivery) : Option (List Rule) :=
  (deliveries.reverse.find? fun delivery => delivery.store.path = store.path).map (·.rules)

/-- The rules that a store was given after all other stores. -/
def lastOfAll (store : FileStore) (deliveries : List Delivery) : Option (List Rule) :=
  (deliveries.getLast?.filter fun delivery => delivery.store.path = store.path).map (·.rules)

lemma lastFor_cons (store : FileStore) (delivery : Delivery) (deliveries : List Delivery) :
    lastFor store (delivery :: deliveries) = (lastFor store deliveries).or
      (if delivery.store.path = store.path then some delivery.rules else none) := by
  unfold lastFor
  rw [List.reverse_cons, List.find?_append, Option.map_or, List.find?_singleton]
  by_cases h : delivery.store.path = store.path <;> simp [h]

lemma lastOfAll_concat (store : FileStore) (deliveries : List Delivery) (last : Delivery) :
    lastOfAll store (deliveries ++ [last]) =
      if last.store.path = store.path then some last.rules else none := by
  rw [lastOfAll, List.getLast?_concat]
  by_cases h : last.store.path = store.path <;> simp [Option.filter, h]

lemma deliver?_cons_eq_some {delivery : Delivery} {deliveries : List Delivery}
    (h : deliver? d (delivery :: deliveries) = some after) :
    (delivery.store.save delivery.rules d).outcome = .ok () ∧
      deliver? (delivery.store.save delivery.rules d).directory deliveries = some after := by
  unfold deliver? at h
  dsimp only at h
  split at h
  · exact ⟨‹_›, h⟩
  · contradiction

lemma deliver?_append (d : Directory) (before deliveries : List Delivery) :
    deliver? d (before ++ deliveries) = (deliver? d before).bind (deliver? · deliveries) := by
  induction before generalizing d with
  | nil => rfl
  | cons delivery before ih =>
    rw [List.cons_append, deliver?, deliver?]
    split
    · exact ih _
    · rfl

lemma holds_of_save (h : (store.save rules d).outcome = .ok ()) :
    store.Holds (store.save rules d).directory (some rules) := by
  rcases save_cases store rules d .none with
    ⟨cause, -, hsave⟩ | ⟨d', hholds, hsave⟩ | ⟨d', -, hsave⟩
  · simp [hsave] at h
  · rwa [hsave]
  · simp [hsave] at h

/-- The deliveries go to one of two stores whose files are apart. -/
lemma holds_of_deliver? {deliveries : List Delivery} {stored? : Option (List Rule)}
    (hplace : a.path.location ≠ b.path.location)
    (htemporary : a.path.location ≠ b.temporary.location)
    (hstores : ∀ delivery ∈ deliveries, delivery.store = a ∨ delivery.store = b)
    (hfolder : SameFolder d a b) (hholds : a.Holds d stored?)
    (h : deliver? d deliveries = some after) :
    a.Holds after ((lastFor a deliveries).or stored?) := by
  induction deliveries generalizing d stored? with
  | nil =>
    obtain rfl := Option.some.inj h
    exact hholds
  | cons delivery deliveries ih =>
    obtain ⟨hstore, hrest⟩ := List.forall_mem_cons.1 hstores
    obtain ⟨hok, hafter⟩ := deliver?_cons_eq_some h
    rw [lastFor_cons, Option.or_assoc]
    rcases hstore with rfl | rfl
    · rw [if_pos rfl, Option.some_or]
      exact ih hrest (sameFolder_of_save hfolder.symm hok).1.symm (holds_of_save hok) hafter
    · have hne : delivery.store.path ≠ a.path := fun heq => hplace (by rw [heq])
      rw [if_neg hne, Option.none_or]
      have hread := read_path_of_save hfolder hplace htemporary hok
      exact ih hrest (sameFolder_of_save hfolder hok).1 (holds_congr hread hholds) hafter

/-- The ways to the files of two stores stay as they are while rules go to these stores. -/
lemma sameFolder_of_deliver? {deliveries : List Delivery}
    (hstores : ∀ delivery ∈ deliveries, delivery.store = a ∨ delivery.store = b)
    (hfolder : SameFolder d a b) (h : deliver? d deliveries = some after) :
    SameFolder after a b ∧ after.locate a.path = d.locate a.path := by
  induction deliveries generalizing d with
  | nil =>
    obtain rfl := Option.some.inj h
    exact ⟨hfolder, rfl⟩
  | cons delivery deliveries ih =>
    obtain ⟨hstore, hrest⟩ := List.forall_mem_cons.1 hstores
    obtain ⟨hok, hafter⟩ := deliver?_cons_eq_some h
    rcases hstore with rfl | rfl
    · obtain ⟨hfolder', hlocate⟩ := ih hrest (sameFolder_of_save hfolder.symm hok).1.symm hafter
      exact ⟨hfolder', hlocate.trans (locate_path_of_save hok)⟩
    · obtain ⟨hkept, hlocate⟩ := sameFolder_of_save hfolder hok
      obtain ⟨hfolder', hlocate'⟩ := ih hrest hkept hafter
      exact ⟨hfolder', hlocate'.trans hlocate⟩

lemma mem_of_lastFor {deliveries : List Delivery} (h : lastFor store deliveries = some rules) :
    ∃ delivery ∈ deliveries, delivery.rules = rules := by
  obtain ⟨delivery, hfind, hrules⟩ := Option.map_eq_some_iff.1 h
  exact ⟨delivery, List.mem_reverse.1 (List.mem_of_find?_eq_some hfind), hrules⟩

lemma read_of_deliver? {deliveries : List Delivery}
    (hplace : a.path.location ≠ b.path.location)
    (htemporary : a.path.location ≠ b.temporary.location)
    (hstores : ∀ delivery ∈ deliveries, delivery.store = a ∨ delivery.store = b)
    (hwell : ∀ delivery ∈ deliveries, ∀ r ∈ delivery.rules, r.formula.WellFormed)
    (hfolder : SameFolder start a b) (hstart : start.read a.path = .error .missing)
    (h : deliver? start deliveries = some after) :
    a.read after = ⟨.ok ((lastFor a deliveries).getD []), []⟩ := by
  have hnone : a.Holds start none := ⟨fun _ => hstart, by simp⟩
  have hholds := holds_of_deliver? hplace htemporary hstores hfolder hnone h
  rw [Option.or_none] at hholds
  refine read_of_holds (fun rules hrules => ?_) hholds
  obtain ⟨delivery, hmem, rfl⟩ := mem_of_lastFor hrules
  exact hwell delivery hmem

/-- Rules that go to a store are lost to the store whose file is the temporary file of the first. -/
lemma read_missing_of_save (hplace : a.path.location ≠ b.path.location)
    (htemporary : a.path.location = b.temporary.location) (hfolder : SameFolder d a b)
    (hlocate : d.locate a.path = start.locate a.path)
    (hstart : start.read a.path = .error .missing) (h : (b.save rules d).outcome = .ok ()) :
    (b.save rules d).directory.read a.path = .error .missing := by
  rw [Directory.read_eq_missing_iff] at hstart ⊢
  rw [(sameFolder_of_save hfolder h).2, hlocate]
  refine hstart.imp_right fun ⟨hfound, hnone⟩ => ⟨hfound, ?_⟩
  rw [htemporary] at hplace hnone ⊢
  rw [get?_temporary_of_save hplace h]
  exact (Option.or_eq_none_iff.1 hnone).2

/-- A store whose file is the temporary file of the other has only what it was given after that. -/
lemma read_of_deliver?_of_temporary {deliveries : List Delivery}
    (hplace : a.path.location ≠ b.path.location)
    (htemporary : a.path.location = b.temporary.location)
    (hstores : ∀ delivery ∈ deliveries, delivery.store = a ∨ delivery.store = b)
    (hwell : ∀ delivery ∈ deliveries, ∀ r ∈ delivery.rules, r.formula.WellFormed)
    (hfolder : SameFolder start a b) (hstart : start.read a.path = .error .missing)
    (h : deliver? start deliveries = some after) :
    a.read after = ⟨.ok ((lastOfAll a deliveries).getD []), []⟩ := by
  rcases List.eq_nil_or_concat' deliveries with rfl | ⟨before, last, rfl⟩
  · obtain rfl := Option.some.inj h
    rw [read, hstart]
    rfl
  rw [deliver?_append] at h
  obtain ⟨mid, hmid, hlast⟩ := Option.bind_eq_some_iff.1 h
  obtain ⟨hok, hafter⟩ := deliver?_cons_eq_some hlast
  obtain rfl := Option.some.inj hafter
  have hmem : last ∈ before ++ [last] := List.mem_append_right before List.mem_cons_self
  rcases hstores last hmem with rfl | rfl
  · rw [lastOfAll_concat, if_pos rfl]
    refine read_of_holds (fun rules hrules => ?_) (holds_of_save hok)
    obtain rfl := Option.some.inj hrules
    exact hwell last hmem
  · have hne : last.store.path ≠ a.path := fun heq => hplace (by rw [heq])
    have hbefore : ∀ delivery ∈ before, delivery.store = a ∨ delivery.store = last.store :=
      fun delivery hdelivery => hstores delivery (List.mem_append_left _ hdelivery)
    obtain ⟨hkept, hlocate⟩ := sameFolder_of_deliver? hbefore hfolder hmid
    rw [lastOfAll_concat, if_neg hne, read,
      read_missing_of_save hplace htemporary hkept hlocate hstart hok]
    rfl

/-- **Stores in one folder are independent** but for their temporary files. A call on a store,
however it ends, spares all places but that of the store's own file: no more is lost there than a
temporary file. After any deliveries that end well, in any order, a store whose file is not the
temporary file of the other reads the rules that it was given last, and none if it was given none. A
store whose file is the temporary file of the other reads these only if nothing went to the other
after that, and none otherwise. -/
theorem stores_independent :
    (∀ (store : FileStore) (rules : List Rule) (d : Directory) (mishap : Mishap) (m : Location),
      m ≠ store.path.location → store.Spared d (store.save rules d mishap).directory m) ∧
    ∀ (start after : Directory) (a b : FileStore) (deliveries : List Delivery),
      SameFolder start a b → a.path.location ≠ b.path.location →
      start.read a.path = .error .missing → start.read b.path = .error .missing →
      (∀ delivery ∈ deliveries, delivery.store = a ∨ delivery.store = b) →
      (∀ delivery ∈ deliveries, ∀ r ∈ delivery.rules, r.formula.WellFormed) →
      deliver? start deliveries = some after →
      (a.path.location ≠ b.temporary.location →
        a.read after = ⟨.ok ((lastFor a deliveries).getD []), []⟩) ∧
      (b.path.location ≠ a.temporary.location →
        b.read after = ⟨.ok ((lastFor b deliveries).getD []), []⟩) ∧
      (a.path.location = b.temporary.location →
        a.read after = ⟨.ok ((lastOfAll a deliveries).getD []), []⟩) ∧
      (b.path.location = a.temporary.location →
        b.read after = ⟨.ok ((lastOfAll b deliveries).getD []), []⟩) := by
  refine ⟨fun store rules d mishap m hm => spared_of_save store rules d mishap hm, ?_⟩
  intro start after a b deliveries hfolder hplace ha hb hstores hwell hdone
  -- What holds of the one store holds of the other with the stores the other way round.
  have hstores' : ∀ delivery ∈ deliveries, delivery.store = b ∨ delivery.store = a :=
    fun delivery hmem => (hstores delivery hmem).symm
  refine ⟨fun hne => ?_, fun hne => ?_, fun htemporary => ?_, fun htemporary => ?_⟩
  · exact read_of_deliver? hplace hne hstores hwell hfolder ha hdone
  · exact read_of_deliver? hplace.symm hne hstores' hwell hfolder.symm hb hdone
  · exact read_of_deliver?_of_temporary hplace htemporary hstores hwell hfolder ha hdone
  · exact read_of_deliver?_of_temporary hplace.symm htemporary hstores' hwell hfolder.symm hb hdone

/-- Two stores that share a temporary file, with a call on one of them that fails halfway, and a
third one whose file is that temporary file: it reads its rules until rules go to another. -/
theorem stores_independent_sharing :
    let a : FileStore := ⟨⟨"rules.bin"⟩⟩
    let b : FileStore := ⟨⟨"rules.old"⟩⟩
    let c : FileStore := ⟨⟨"rules.tmp"⟩⟩
    let deny : List Rule := [⟨.preInstalled, .deny⟩]
    let allow : List Rule := [⟨.preInstalled, .allow⟩]
    (∃ after, deliver? {} [⟨a, deny⟩, ⟨b, deny⟩, ⟨a, allow⟩] = some after ∧
      a.read after = ⟨.ok allow, []⟩ ∧ b.read after = ⟨.ok deny, []⟩ ∧
      a.Spared after (a.save [] after (.writing (some [73]))).directory b.path.location) ∧
    (∃ after, deliver? {} [⟨a, allow⟩, ⟨c, deny⟩] = some after ∧ c.read after = ⟨.ok deny, []⟩) ∧
    ∃ after, deliver? {} [⟨c, deny⟩, ⟨a, allow⟩] = some after ∧ c.read after = ⟨.ok [], []⟩ := by
  intro a b c deny allow
  obtain ⟨hspared, hread⟩ := stores_independent
  have hfolder : SameFolder {} a b ∧ SameFolder {} a c := by
    unfold SameFolder
    decide +kernel
  have hmissing : ∀ store ∈ [a, b, c], ({} : Directory).read store.path = .error .missing := by
    decide +kernel
  have ha := hmissing a (by simp)
  have hc := hmissing c (by simp)
  have hdeny : ∀ r ∈ deny, r.formula.WellFormed := by decide
  have hallow : ∀ r ∈ allow, r.formula.WellFormed := by decide
  refine ⟨?_, ?_, ?_⟩
  · obtain ⟨after, hdone⟩ : ∃ after, deliver? {} [⟨a, deny⟩, ⟨b, deny⟩, ⟨a, allow⟩] = some after :=
      Option.isSome_iff_exists.1 (by decide +kernel)
    obtain ⟨hread, hread', -⟩ := hread {} after a b _ hfolder.1 (by decide) ha
      (hmissing b (by simp)) (by simp) (by simpa using ⟨hdeny, hallow⟩) hdone
    exact ⟨after, hdone, hread (by decide), hread' (by decide), hspared _ _ _ _ _ (by decide)⟩
  · obtain ⟨after, hdone⟩ : ∃ after, deliver? {} [⟨a, allow⟩, ⟨c, deny⟩] = some after :=
      Option.isSome_iff_exists.1 (by decide +kernel)
    obtain ⟨-, -, -, hread'⟩ := hread {} after a c _ hfolder.2 (by decide) ha hc (by simp)
      (by simpa using ⟨hallow, hdeny⟩) hdone
    exact ⟨after, hdone, hread' (by decide)⟩
  · obtain ⟨after, hdone⟩ : ∃ after, deliver? {} [⟨c, deny⟩, ⟨a, allow⟩] = some after :=
      Option.isSome_iff_exists.1 (by decide +kernel)
    obtain ⟨-, -, -, hread'⟩ := hread {} after a c _ hfolder.2 (by decide) ha hc (by simp)
      (by simpa using ⟨hdeny, hallow⟩) hdone
    exact ⟨after, hdone, hread' (by decide)⟩

/-- If the file of one store is the temporary file of another, a delivery to the other takes away
what the first was given, and the first then reads no rules as if there had never been any. -/
theorem file_lost_as_temporary :
    let a : FileStore := ⟨⟨"rules.bin"⟩⟩
    let b : FileStore := ⟨⟨"rules.tmp"⟩⟩
    let deny : List Rule := [⟨.preInstalled, .deny⟩]
    let deliveries : List Delivery := [⟨b, deny⟩, ⟨a, []⟩]
    SameFolder {} a b ∧ a.path.location ≠ b.path.location ∧
    ({} : Directory).read a.path = .error .missing ∧
    ({} : Directory).read b.path = .error .missing ∧
    lastFor b deliveries = some deny ∧
    ∃ before after, deliver? {} [⟨b, deny⟩] = some before ∧ deliver? {} deliveries = some after ∧
      b.read after = ⟨.ok [], []⟩ ∧
      before.get? b.path.location ≠ none ∧ after.get? b.path.location = none := by
  intro a b deny deliveries
  obtain ⟨before, hbefore, hthere⟩ : ∃ before, deliver? {} [⟨b, deny⟩] = some before ∧
      (before.get? b.path.location).isSome = true :=
    Option.map_eq_some_iff.1 (by decide +kernel)
  obtain ⟨after, hafter, hlost⟩ : ∃ after, deliver? {} deliveries = some after ∧
      (after.read b.path, after.get? b.path.location) = (.error .missing, none) :=
    Option.map_eq_some_iff.1 (by decide +kernel)
  obtain ⟨hread, hgone⟩ := Prod.mk.inj hlost
  refine ⟨?_, by decide, by decide +kernel, by decide +kernel, by decide, before, after, hbefore,
    hafter, ?_, Option.isSome_iff_ne_none.1 hthere, hgone⟩
  · unfold SameFolder
    decide +kernel
  · rw [read, hread]

end FileStore

end InstallPolicy
