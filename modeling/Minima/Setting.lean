import Minima.Scalar

/-!
# Settings

An option bag is a list of named values in the order in which they were given. The values are
untyped: each method converts an option when it needs it, and a value that cannot be converted
fails there.
-/

namespace Minima

/-- A value as it can be given for an option. -/
inductive Setting (R : Type) where
  | absent
  | flag (b : Bool)
  | whole (i : Int)
  | real (x : R)
  | text (s : String)
  | items (l : List (Setting R))
deriving Inhabited

/-- Named values in order. -/
abbrev Options (R : Type) := List (String × Setting R)

namespace Options

variable {R : Type}

def get? (options : Options R) (key : String) : Option (Setting R) := options.lookup key

def has (options : Options R) (key : String) : Bool := (options.get? key).isSome

def keys (options : Options R) : List String := options.map (·.1)

/-- Give a value to an option: at its old place, or at the end if it is new. -/
def put (options : Options R) (key : String) (value : Setting R) : Options R :=
  if options.has key then options.map fun o => if o.1 == key then (key, value) else o
  else options ++ [(key, value)]

/-- `options`, with those of `more` put over them. -/
def update (options more : Options R) : Options R :=
  more.foldl (fun acc o => acc.put o.1 o.2) options

end Options

end Minima
