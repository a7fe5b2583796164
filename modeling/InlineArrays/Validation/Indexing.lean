import InlineArrays.Access
import InlineArrays.Usage

/-!
# Indexing

Every element access in a body has to bind.
-/

namespace InlineArrays.Context

/-- What keeps an expression from binding, if it is an element access. -/
def bindErrors (c : Context) (e : Expr) : List Diagnostic :=
  if e.isElement then
    match c.bind e with
    | .ok _ => []
    | .error errors => errors
  else []

def indexingErrors (c : Context) : List Diagnostic :=
  c.method.uses.flatMap fun (e, _) ↦ c.bindErrors e

end InlineArrays.Context
