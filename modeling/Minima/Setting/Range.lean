import Minima.Setting.Conversion

/-!
# Ranges of options

The checks that a method makes of its options before a run. An undefined number lies in no range
that asks for a comparison to hold, and in every range that only asks for one not to hold.
-/

namespace Minima

namespace OptionRange

variable {R : Type} [Scalar R]

def covers (x : R) : OptionRange → Bool
  | .positive => decide ((0.0 : R) < x)
  | .notNegative => !decide (x < 0.0)
  | .aboveOne => decide ((1.0 : R) < x)
  | .atLeastOne => !decide (x < 1.0)
  | .betweenZeroAndOne => decide ((0.0 : R) < x) && decide (x < 1.0)

end OptionRange

namespace Options

variable {R : Type} [Scalar R]

def require (options : Options R) (owner key : String) (range : OptionRange) : Attempt R Unit := do
  let x ← options.real key
  if range.covers x then pure ()
  else throw (.configuration (.optionOutOfRange owner key range))

/-- Refuse an option that is not a positive whole number. -/
def requireCount (options : Options R) (owner key : String) : Attempt R Unit := do
  let i ← options.whole key
  if 0 < i then pure () else throw (.configuration (.optionOutOfRange owner key .positive))

end Options

end Minima
