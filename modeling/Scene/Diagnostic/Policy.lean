/-
Policies: what becomes of a problem that need not be an error.

Two classes of problems can be tolerated, doubtful values and elements of
unknown tags.  For each a policy says whether it is an error, a warning in the
log, or a remark for debugging.
-/

namespace Scene

/-- What becomes of a problem that can be tolerated. -/
inductive Enforcement where
  | error
  | warn
  | log
deriving DecidableEq, Repr

/-- The policy where none is chosen. -/
def Enforcement.standard : Enforcement := .warn

/-- A policy for each class of problems. -/
structure Policy where
  /-- For values that can be used but look wrong. -/
  warnings : Enforcement
  /-- For elements of unknown tags. -/
  unrecognized : Enforcement
deriving DecidableEq, Repr

namespace Policy

/-- Doubtful values are warned about, and unknown elements are logged. -/
def standard : Policy := ⟨.standard, .log⟩

/-- Nothing is tolerated. -/
def pedantic : Policy := ⟨.error, .error⟩

end Policy

end Scene
