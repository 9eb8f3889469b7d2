/-!
# Owners

The object that contributes a piece of configuration. Owners are ordered by kind, then
namespace, then name.
-/

namespace Tributary

structure Owner where
  kind : String
  namespaceName : String
  name : String
  deriving DecidableEq, Inhabited

namespace Owner

/-- `kind/namespace/name`. -/
def text (o : Owner) : String := o.kind ++ "/" ++ o.namespaceName ++ "/" ++ o.name

def precedes (a b : Owner) : Bool :=
  if a.kind = b.kind then
    if a.namespaceName = b.namespaceName then a.name < b.name
    else a.namespaceName < b.namespaceName
  else a.kind < b.kind

end Owner

end Tributary
