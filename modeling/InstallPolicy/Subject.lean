import InstallPolicy.Vocabulary

/-!
Subjects: what is known of an install when it is judged.
-/

namespace InstallPolicy

/-- What is known of an install. Nothing is known of the default subject. -/
structure Subject where
  packageName : String := ""
  appCertificate : String := ""
  installerName : String := ""
  installerCertificate : String := ""
  versionCode : Int64 := 0
  preInstalled : Bool := false
  deriving DecidableEq, Inhabited

namespace Subject

def value (s : Subject) : Key → Literal
  | .packageName => .text s.packageName
  | .appCertificate => .text s.appCertificate
  | .installerName => .text s.installerName
  | .installerCertificate => .text s.installerCertificate
  | .versionCode => .integer s.versionCode
  | .preInstalled => .boolean s.preInstalled

/-- A value is of the kind of its attribute. -/
@[simp] theorem kind_value (s : Subject) (k : Key) : (s.value k).kind = k.kind := by
  cases k <;> rfl

end Subject

end InstallPolicy
