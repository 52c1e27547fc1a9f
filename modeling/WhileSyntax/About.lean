/-!
# About this library

The version that tables of the language report.
-/

namespace WhileSyntax

/-- Version of the language and of its printed form. -/
def version : String := "0.1.0"

end WhileSyntax
