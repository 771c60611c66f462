import Clearance.Path.Basic
import Clearance.Registry.Basic

/-!
# Putting a registry together

A registry grows by `Registry.register`, one module at a time, under the name of the module.
A name that is there already is refused; a name with a separator in it is taken, with a
warning, since no path can name a permission of that scope. `Registry.assemble` registers a
list of modules in order and stops at the first one that is refused.
-/

namespace Clearance.Registry

/-- Adds the module under its name. -/
def register (m : Module) (r : Registry) : Run Registry :=
  if h : m.name ∈ r.scopes then throw (.duplicateScope m.name)
  else do
    if Path.separator ∈ m.name.toList then Run.log (.unaddressableScope m.name)
    Run.log (.registering m.name m.size)
    return r.insert m.name m h

/-- Adds the modules in order. -/
def assemble (ms : List Module) (r : Registry) : Run Registry :=
  ms.foldlM (fun r m => register m r) r

end Clearance.Registry
