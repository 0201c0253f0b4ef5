import InstallPolicy.AllowedInstallers
import InstallPolicy.Bytes
import InstallPolicy.Bytes.Hex
import InstallPolicy.Digest.Sha256
import InstallPolicy.Digest.Sha3
import InstallPolicy.Document.Decode
import InstallPolicy.Document.Encode
import InstallPolicy.Document.Format
import InstallPolicy.Document.Reader
import InstallPolicy.Engine
import InstallPolicy.Formula.Atom
import InstallPolicy.Formula.Basic
import InstallPolicy.Formula.Error
import InstallPolicy.Formula.Matching
import InstallPolicy.Json
import InstallPolicy.Json.Rule
import InstallPolicy.Json.Subject
import InstallPolicy.Literal
import InstallPolicy.Release
import InstallPolicy.Rule
import InstallPolicy.Store.Directory
import InstallPolicy.Store.Error
import InstallPolicy.Store.Event
import InstallPolicy.Store.File
import InstallPolicy.Store.Path
import InstallPolicy.Store.Source
import InstallPolicy.Subject
import InstallPolicy.Verdict
import InstallPolicy.Vocabulary
import InstallPolicy.Proofs.Document.Limits
import InstallPolicy.Proofs.Document.Reader
import InstallPolicy.Proofs.Document.RoundTrip
import InstallPolicy.Proofs.Document.Canonical
import InstallPolicy.Proofs.Document.Extension
import InstallPolicy.Proofs.AllowedInstallers
import InstallPolicy.Proofs.Engine
import InstallPolicy.Proofs.Document.Building
import InstallPolicy.Proofs.Document.Disjoint
import InstallPolicy.Proofs.Document.Symmetry
import InstallPolicy.Proofs.Store.Directory
import InstallPolicy.Proofs.Store.File
import InstallPolicy.Proofs.Store.Trust
import InstallPolicy.Proofs.Store.Independence
import InstallPolicy.Proofs.Validity
import InstallPolicy.Proofs.Attribution
import InstallPolicy.Proofs.Formula.Matching
import InstallPolicy.Proofs.Verdict.Algebra
import InstallPolicy.Proofs.Formula.Printing
import InstallPolicy.Proofs.Formula.Duality
import InstallPolicy.Proofs.Formula.Digest
import InstallPolicy.Proofs.Formula.Names
import InstallPolicy.Proofs.AllowedInstallers.Document
import InstallPolicy.Proofs.Document.Cursor
import InstallPolicy.Proofs.Document.Consumption
