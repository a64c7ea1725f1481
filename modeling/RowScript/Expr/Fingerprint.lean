import RowScript.Expr.Json
import RowScript.Sha256

/-! # Fingerprints: a short key under which what an expression compiles to may be kept -/

namespace RowScript.Expr

/-- The digest of the canonical text. -/
def fingerprint (e : Expr) : String := Sha256.hexDigest e.text

end RowScript.Expr
