import InstallPolicy.Json
import InstallPolicy.Subject

/-!
The JSON forms of a subject. It is written as an object with a field for each attribute. It is read
from such an object, which may have further fields, or from an array of the values in order; every
value has to be there and be of its kind.
-/

namespace InstallPolicy.Subject

def toJson (s : Subject) : Json :=
  .object [
    ("package_name", .string s.packageName),
    ("app_certificate", .string s.appCertificate),
    ("installer_name", .string s.installerName),
    ("installer_certificate", .string s.installerCertificate),
    ("version_code", .integer s.versionCode.toInt),
    ("is_pre_installed", .bool s.preInstalled)]

/-- The subject with these values for its attributes, if each is of the right kind. -/
def ofValues? (packageName appCertificate installerName installerCertificate versionCode
    preInstalled : Json) : Option Subject := do
  return {
    packageName := ← packageName.string?
    appCertificate := ← appCertificate.string?
    installerName := ← installerName.string?
    installerCertificate := ← installerCertificate.string?
    versionCode := ← versionCode.int64?
    preInstalled := ← preInstalled.bool? }

def ofJson? : Json → Option Subject
  | .array [packageName, appCertificate, installerName, installerCertificate, versionCode,
      preInstalled] =>
    ofValues? packageName appCertificate installerName installerCertificate versionCode
      preInstalled
  | j => do
    ofValues? (← j.field? "package_name") (← j.field? "app_certificate")
      (← j.field? "installer_name") (← j.field? "installer_certificate")
      (← j.field? "version_code") (← j.field? "is_pre_installed")

end InstallPolicy.Subject
