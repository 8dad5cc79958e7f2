import DocScript.Fault.Detail
import DocScript.Session.Basic

/-!
# Functions in detail

The detailed form of a function tells whether the host supplies it, and what its
parameters are otherwise.
-/

namespace DocScript

/-- Parameters in detail. -/
def Params.detail : Params → String
  | .fixed names => detailOf "Fixed" ("[" ++ ", ".intercalate (names.map Text.quote) ++ "]")
  | .variadic name => detailOf "Variadic" (Text.quote name)

/-- A function in detail. -/
def Function.detail {H : Type} : Function H → String
  | .native _ => "Native"
  | .user params _ => detailFields "User" [("params", params.detail)]

end DocScript
