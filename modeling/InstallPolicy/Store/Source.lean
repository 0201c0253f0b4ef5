import InstallPolicy.Document.Decode
import InstallPolicy.Store.Event
import InstallPolicy.Subject

/-!
Where rules come from: a source answers each subject with the rules to judge it by, or with the
reason why there are none.
-/

namespace InstallPolicy

/-- The answer of a source, and what it told on the way. -/
structure Reading where
  rules : Except StoreError (List Rule)
  events : List Event := []

abbrev RuleSource := Subject → Reading

namespace RuleSource

def fixed (rules : List Rule) : RuleSource := fun _ => ⟨.ok rules, []⟩

def failing (cause : StoreError) : RuleSource := fun _ => ⟨.error cause, []⟩

/-- The rules of a rule list document, read anew for every subject. -/
def document (bytes : Bytes) : RuleSource := fun _ =>
  ⟨(Document.decodeRules bytes).mapError .decode, []⟩

/-- For each package the rules of its first entry, and none for a package without an entry. -/
def byPackage (table : List (String × List Rule)) : RuleSource := fun s =>
  ⟨.ok ((table.lookup s.packageName).getD []), []⟩

end RuleSource

end InstallPolicy
