import SealedEnvelope.Config

set_option autoImplicit false

/-! # Registries of configurations

A registry keeps configurations under names. One name is reserved for the registry's default, which
never changes and is also what an unknown name stands for. Registering a name again replaces its
configuration; whoever holds the old one keeps it, as configurations are values. An operation that
fails gives no new registry. -/

namespace SealedEnvelope

/-- Configurations under names, with a default. -/
structure Registry where
  default : Config
  entries : NameMap Config
deriving DecidableEq, Repr

namespace Registry

/-- The name of the default. -/
def defaultKey : String := "default"

/-- A registry without names. -/
def withDefault (config : Config) : Registry := ⟨config, .empty⟩

/-- A registry without names, with the standard configuration as its default. -/
def standard : Registry := withDefault .standard

instance : Inhabited Registry := ⟨standard⟩

/-- The configuration under a name, or the default. -/
def get (r : Registry) (key : String) : Config :=
  if key = defaultKey then r.default else (r.entries.get? key).getD r.default

/-- Whether a name stands for a configuration of its own. -/
def contains (r : Registry) (key : String) : Bool := key = defaultKey || r.entries.contains key

/-- The registered names in ascending order, without the default's. -/
def keys (r : Registry) : List String := r.entries.keys

/-- Refuses the default's name. -/
def checkKey (key : String) : Except Error Unit :=
  if key = defaultKey then .error (.reservedKey key) else .ok ()

/-- The registry with a configuration under a name. -/
def registerConfig (r : Registry) (key : String) (config : Config) : Except Error Registry := do
  checkKey key
  return { r with entries := r.entries.insert key config }

/-- The registry with overrides laid over the default under a name. -/
def register (r : Registry) (key : String) (overrides : Json) :
    Except (Config.Failure Error) Registry := do
  checkKey key
  r.registerConfig key (← r.default.buildFrom overrides)

/-- The registry with overrides laid over another name's configuration under a name. -/
def registerDerived (r : Registry) (key baseKey : String) (overrides : Json) :
    Except (Config.Failure Error) Registry := do
  checkKey key
  r.registerConfig key (← (r.get baseKey).buildFrom overrides)

/-- The registry without a name, and whether it was there. -/
def unregister (r : Registry) (key : String) : Except Error (Bool × Registry) := do
  checkKey key
  return (r.entries.contains key, { r with entries := r.entries.erase key })

end Registry

end SealedEnvelope
