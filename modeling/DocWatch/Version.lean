/-!
# The name that the program gives itself
-/

namespace DocWatch

/-- The version of the program. -/
def version : String := "0.3.0"

/-- How the program introduces itself to those it asks. -/
def userAgent : String := "prometheus-mcp/" ++ version

end DocWatch
