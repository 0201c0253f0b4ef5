import Mathlib.Logic.Function.Iterate
import InstallPolicy.Engine
import InstallPolicy.Proofs.Document.RoundTrip
import InstallPolicy.Proofs.Store.Directory

/-!
Rules kept in a file, over any number of calls.

What the file holds is told by one thing: the rules of the last call that ended well. A call that
ends well puts its rules there, and any other call, whatever goes wrong in it, leaves the file as
it was. So the store supplies the rules that a store in memory would.
-/

namespace InstallPolicy

open Document

variable {store : FileStore} {d d' : Directory} {stored? : Option (List Rule)}

/-! ### The content of a file -/

lemma rulesOfContent_append {document checksum : Bytes} (h : checksum.length = checksumBytes) :
    rulesOfContent (document ++ checksum) =
      if Sha3.digest document = checksum then (decodeRules document).mapError .decode
      else .error (.corrupted .checksumMismatch) := by
  have hlength : (document ++ checksum).length = document.length + checksumBytes := by
    rw [List.length_append, h]
  have htake : (document ++ checksum).take document.length = document := List.take_left
  have hdrop : (document ++ checksum).drop document.length = checksum := List.drop_left
  have hshort : ¬ document.length + checksumBytes < checksumBytes := by omega
  simp only [rulesOfContent, hlength, Nat.add_sub_cancel, htake, hdrop, if_neg hshort, ne_eq,
    ite_not]

lemma rulesOfContent_withChecksum (document : Bytes) :
    rulesOfContent (withChecksum document) = (decodeRules document).mapError .decode := by
  rw [withChecksum, rulesOfContent_append (Sha3.length_digest document), if_pos rfl]

lemma rulesOfContent_of_encodeRules {rules : List Rule} {document : Bytes}
    (hwell : ∀ r ∈ rules, r.formula.WellFormed) (hencode : encodeRules rules = .ok document) :
    rulesOfContent (document ++ Sha3.digest document) = .ok rules := by
  have hdecode := decodeRules_of_encodeRules hwell hencode
  rw [← withChecksum, rulesOfContent_withChecksum, hdecode]
  rfl

namespace FileStore

/-- What the file holds if these rules were stored last, or none were stored. -/
structure Holds (store : FileStore) (d : Directory) (stored? : Option (List Rule)) : Prop where
  nothing : stored? = none → d.read store.path = .error .missing
  document : ∀ rules ∈ stored?, ∃ document, encodeRules rules = .ok document ∧
    d.read store.path = .ok (document ++ Sha3.digest document)

lemma read_of_holds (hwell : ∀ rules ∈ stored?, ∀ r ∈ rules, r.formula.WellFormed)
    (h : store.Holds d stored?) : store.read d = ⟨.ok (stored?.getD []), []⟩ := by
  cases stored? with
  | none => rw [read, h.nothing rfl, Option.getD_none]
  | some rules =>
    obtain ⟨document, hencode, hread⟩ := h.document rules rfl
    have hrules := rulesOfContent_of_encodeRules (hwell rules rfl) hencode
    rw [read, hread, Option.getD_some]
    simp only [hrules]

/-! ### One call -/

/-- How a call ends: the rules have no document and nothing is done, or the file is replaced, or
at most the temporary file is gone. -/
lemma save_cases (store : FileStore) (rules : List Rule) (d : Directory) (mishap : Mishap) :
    (∃ cause, encodeRules rules = .error cause ∧
      store.save rules d mishap = ⟨.error (.encode cause), d, []⟩) ∨
    (∃ d', store.Holds d' (some rules) ∧
      store.save rules d mishap = ⟨.ok (), d', [.written store.path rules.length]⟩) ∨
    ∃ d', d.DiffersAt d' store.temporary ∧
      store.save rules d mishap = ⟨.error .io, d', [.writeFailed store.path .io]⟩ := by
  simp only [save]
  cases hencode : encodeRules rules with
  | error cause => exact .inl ⟨cause, rfl, rfl⟩
  | ok document =>
    rcases hreplace : d.replace store.temporary store.path (withChecksum document) mishap with
      ⟨_ | _, d'⟩
    · exact .inr (.inr ⟨d', Directory.differsAt_of_replace hreplace, by simp [hreplace]⟩)
    · have hread := Directory.read_of_replace hreplace
      exact .inr (.inl ⟨d', ⟨by simp, by simp [hencode, hread, withChecksum]⟩, by simp [hreplace]⟩)

lemma save_of_admits {rules : List Rule} {document : Bytes}
    (hencode : encodeRules rules = .ok document) (htemporary : d.Admits store.temporary)
    (hpath : d.Admits store.path) : (store.save rules d .none).outcome = .ok () := by
  obtain ⟨d', hreplace⟩ := Directory.exists_replace (withChecksum document) htemporary hpath
  simp only [save, hencode, hreplace]

lemma read_path_of_differsAt (hpath : store.path ≠ store.temporary) (h : store.Holds d stored?)
    (hdiffers : d.DiffersAt d' store.temporary) :
    d'.read store.path = d.read store.path := by
  cases stored? with
  | none => rw [h.nothing rfl, hdiffers.read_eq_missing (h.nothing rfl)]
  | some rules =>
    obtain ⟨document, -, hread⟩ := h.document rules rfl
    have hlocation := Directory.location_withExtension_ne hread (by decide) hpath
    rw [hread, hdiffers.read_eq_ok hlocation hread]

lemma holds_congr (hread : d'.read store.path = d.read store.path)
    (h : store.Holds d stored?) : store.Holds d' stored? := by
  obtain ⟨hnothing, hdocument⟩ := h
  rw [← hread] at hnothing hdocument
  exact ⟨hnothing, hdocument⟩

/-! ### Many calls -/

structure Call where
  rules : List Rule
  mishap : Mishap := .none

/-- A directory after some calls, and the rules of the last of them that ended well. -/
structure History where
  directory : Directory
  stored? : Option (List Rule) := none

def step (store : FileStore) (before : History) (call : Call) : History :=
  let saved := store.save call.rules before.directory call.mishap
  match saved.outcome with
  | .ok () => ⟨saved.directory, some call.rules⟩
  | .error _ => ⟨saved.directory, before.stored?⟩

def run (store : FileStore) (start : Directory) (calls : List Call) : History :=
  calls.foldl store.step ⟨start, none⟩

/-- The file holds the rules stored last, and they are well formed. -/
structure Faithful (store : FileStore) (history : History) : Prop where
  holds : store.Holds history.directory history.stored?
  wellFormed : ∀ rules ∈ history.stored?, ∀ r ∈ rules, r.formula.WellFormed

lemma faithful_step {before : History} {call : Call} (hpath : store.path ≠ store.temporary)
    (hcall : ∀ r ∈ call.rules, r.formula.WellFormed) (h : store.Faithful before) :
    store.Faithful (store.step before call) := by
  rcases save_cases store call.rules before.directory call.mishap with
    ⟨cause, -, hsave⟩ | ⟨after, hholds, hsave⟩ | ⟨after, hdiffers, hsave⟩
  · simpa only [step, hsave] using h
  · simp only [step, hsave]
    exact ⟨hholds, by simpa using hcall⟩
  · simp only [step, hsave]
    have hread := read_path_of_differsAt hpath h.holds hdiffers
    exact ⟨holds_congr hread h.holds, h.wellFormed⟩

lemma faithful_run {start : Directory} {calls : List Call} (hpath : store.path ≠ store.temporary)
    (hstart : start.read store.path = .error .missing)
    (hcalls : ∀ call ∈ calls, ∀ r ∈ call.rules, r.formula.WellFormed) :
    store.Faithful (store.run start calls) := by
  have hfold : ∀ history, store.Faithful history →
      store.Faithful (calls.foldl store.step history) := by
    induction calls with
    | nil => exact fun history h => h
    | cons call calls ih =>
      obtain ⟨hcall, hrest⟩ := List.forall_mem_cons.1 hcalls
      exact fun history h => ih hrest _ (faithful_step hpath hcall h)
  exact hfold _ ⟨⟨fun _ => hstart, by simp⟩, by simp⟩

/-- **Rules kept in a file are as good as rules kept in memory**, whatever goes wrong on the way.
From a directory without the file, after any calls with well-formed rules, the file holds the
document of the rules stored last and its checksum, the store reads those rules, and an engine
over the store does what one over those rules in memory does. From there, a call for rules
without a document does nothing in any directory; a call that fails otherwise leaves the file as
it is, and no temporary file; and a call fails only if it has to. -/
theorem saves_refine_memory {start : Directory} {calls : List Call}
    (hpath : store.path ≠ store.temporary) (hstart : start.read store.path = .error .missing)
    (hcalls : ∀ call ∈ calls, ∀ r ∈ call.rules, r.formula.WellFormed) :
    let after := store.run start calls
    store.Holds after.directory after.stored? ∧
    store.read after.directory = ⟨.ok (after.stored?.getD []), []⟩ ∧
    (∀ reads s allowed, Engine.evaluate ⟨store.source after.directory, reads⟩ s allowed =
      Engine.evaluate ⟨.fixed (after.stored?.getD []), reads⟩ s allowed) ∧
    ∀ call : Call, let saved := store.save call.rules after.directory call.mishap
      (∀ cause, saved.outcome = .error (.encode cause) →
        ∀ d mishap, store.save call.rules d mishap = ⟨.error (.encode cause), d, []⟩) ∧
      (saved.outcome = .error .io →
        saved.directory.read store.path = after.directory.read store.path ∧
        after.directory.DiffersAt saved.directory store.temporary) ∧
      (∀ document, encodeRules call.rules = .ok document → call.mishap = .none →
        after.directory.Admits store.temporary → after.directory.Admits store.path →
        saved.outcome = .ok ()) := by
  intro after
  have hfaithful : store.Faithful after := faithful_run hpath hstart hcalls
  have hread := read_of_holds hfaithful.wellFormed hfaithful.holds
  have hsource : store.source after.directory = .fixed (after.stored?.getD []) := by
    funext s
    exact hread
  refine ⟨hfaithful.holds, hread, fun reads s allowed => by rw [hsource], fun call => ?_⟩
  intro saved
  have hdone : ∀ document, encodeRules call.rules = .ok document → call.mishap = .none →
      after.directory.Admits store.temporary → after.directory.Admits store.path →
      saved.outcome = .ok () := by
    intro document hencode hmishap htemporary hadmits
    simp only [saved, hmishap]
    exact save_of_admits hencode htemporary hadmits
  rcases save_cases store call.rules after.directory call.mishap with
    ⟨cause, hencode, hsave⟩ | ⟨d', -, hsave⟩ | ⟨d', hdiffers, hsave⟩
  · refine ⟨fun other hother d mishap => ?_, fun hio => ?_, hdone⟩
    · obtain rfl : cause = other := by simpa [saved, hsave] using hother
      rw [save, hencode]
    · simp [saved, hsave] at hio
  · exact ⟨by simp [saved, hsave], by simp [saved, hsave], hdone⟩
  · refine ⟨by simp [saved, hsave], fun _ => ?_, hdone⟩
    simp only [saved, hsave]
    exact ⟨read_path_of_differsAt hpath hfaithful.holds hdiffers, hdiffers⟩

/-- Rules are stored, and then three calls fail: for want of a document, with a part of a
temporary file, and with all of one. -/
theorem saves_refine_memory_failures :
    let store : FileStore := ⟨⟨"rules.bin"⟩⟩
    let rules : List Rule := [⟨.preInstalled, .deny⟩]
    let deep : List Rule := [⟨Formula.negate^[257] .preInstalled, .deny⟩]
    let calls : List Call :=
      [⟨rules, .none⟩, ⟨deep, .none⟩, ⟨[], .writing (some [73])⟩, ⟨[], .renaming⟩]
    let after := store.run {} calls
    (∃ document, encodeRules rules = .ok document ∧
      after.directory.read store.path = .ok (document ++ Sha3.digest document)) ∧
    store.read after.directory = ⟨.ok rules, []⟩ ∧
    ∀ reads s allowed, Engine.evaluate ⟨store.source after.directory, reads⟩ s allowed =
      Engine.evaluate ⟨.fixed rules, reads⟩ s allowed := by
  intro store rules deep calls after
  have hpath : store.path ≠ store.temporary := by decide
  have hstart : ({} : Directory).read store.path = .error .missing := by decide +kernel
  have hrules : ∀ r ∈ rules, r.formula.WellFormed := List.forall_mem_singleton.2 (by decide)
  have hdeep : ∀ r ∈ deep, r.formula.WellFormed := List.forall_mem_singleton.2 <|
    Function.Iterate.rec _ (hrules _ List.mem_cons_self) (fun _ => Formula.wellFormed_negate) 257
  have hcalls : ∀ call ∈ calls, ∀ r ∈ call.rules, r.formula.WellFormed := by
    simp only [calls, List.forall_mem_cons]
    exact ⟨hrules, hdeep, by simp, by simp, by simp⟩
  have hstored : after.stored? = some rules := by decide +kernel
  obtain ⟨hholds, hread, hevaluate, -⟩ := saves_refine_memory hpath hstart hcalls
  refine ⟨hholds.document rules hstored, ?_, fun reads s allowed => ?_⟩
  · exact hread.trans (by rw [hstored, Option.getD_some])
  · exact (hevaluate reads s allowed).trans (by rw [hstored, Option.getD_some])

end FileStore

end InstallPolicy
