/-!
# Progress

Long operations report how far they are, in percent, with a message. A part of an operation reports
from 0 to 100, and its reports are rescaled into the stretch that the whole leaves to it.
-/

namespace CallImpact

/-- A report of progress. -/
structure Progress where
  percent : Nat
  message : String
  deriving Repr, BEq, DecidableEq, Inhabited

/-- A percentage within the stretch from `start` to `stop`. -/
def scalePercent (start stop percent : Nat) : Nat :=
  min 255 (start + (stop - start) * min percent 100 / 100)

/-- A report within the stretch from `start` to `stop`. -/
def Progress.scale (start stop : Nat) (p : Progress) : Progress :=
  { p with percent := scalePercent start stop p.percent }

end CallImpact
