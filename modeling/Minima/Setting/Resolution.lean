import Minima.Failure

/-!
# Options and their defaults

A method lists the options that it knows with their defaults. Given options replace them; an option
that the method does not know is refused or ignored.
-/

namespace Minima.Options

variable {R : Type}

/-- The names that `defaults` does not have, in alphabetical order. -/
def unknown (options defaults : Options R) : List String :=
  (options.keys.filter fun key => !defaults.has key).mergeSort fun a b => decide (a ≤ b)

/-- The defaults, replaced by the given options where there are any. -/
def resolve (options defaults : Options R) (owner : String) (strict : Bool) :
    Attempt R (Options R) :=
  let others := options.unknown defaults
  if strict && !others.isEmpty then
    throw (.configuration
      (.unknownOptions owner others (defaults.keys.mergeSort fun a b => decide (a ≤ b))))
  else pure (defaults.update (options.filter fun o => defaults.has o.1))

end Minima.Options
