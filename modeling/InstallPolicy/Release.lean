/-!
Which release of the library this is.
-/

namespace InstallPolicy

/-- The version of the library. -/
def release : String := "0.1.0"

end InstallPolicy
