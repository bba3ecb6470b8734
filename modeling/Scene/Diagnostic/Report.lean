/-
Reports, and values that come with them.

Reading a document never asks for the policy.  It gives a value together with
a list of *reports*, in the order in which they were met: errors, problems that
a policy may tolerate, and remarks.  Only afterwards does a policy sort the
list into errors and log events.  So the value that is read cannot depend on
the policy, and the errors under a policy are those under the strictest one
with the tolerated reports left out.
-/
import Scene.Diagnostic.Error
import Scene.Diagnostic.Policy

namespace Scene

/-! ### Log events -/

/-- How much an event of the log matters. -/
inductive LogLevel where
  | debug
  | warn
deriving DecidableEq, Repr

/-- An event of the log, with named values. -/
structure LogEvent where
  level : LogLevel
  message : String
  fields : List (String × String) := []
deriving DecidableEq, Repr

/-! ### Reports -/

/-- Something met while reading. -/
inductive Report where
  /-- A problem that is an error under every policy. -/
  | error (e : Error)
  /-- A value that can be used but looks wrong. -/
  | warning (message : String)
  /-- An element of an unknown tag. -/
  | unrecognized (message : String)
  /-- A remark for debugging. -/
  | remark (message : String) (fields : List (String × String))
deriving DecidableEq, Repr

namespace Report

/-- What a tolerated problem with a code becomes under a policy. -/
def enforce (policy : Enforcement) (code : ErrorCode) (message : String) : Error ⊕ LogEvent :=
  match policy with
  | .error => .inl (.other code message)
  | .warn => .inr { level := .warn, message }
  | .log => .inr { level := .debug, message }

/-- What a report becomes under a policy. -/
def settle (policy : Policy) : Report → Error ⊕ LogEvent
  | .error e => .inl e
  | .warning message => enforce policy.warnings .elementInvalid message
  | .unrecognized message => enforce policy.unrecognized .elementIncorrectType message
  | .remark message fields => .inr { level := .debug, message, fields }

/-- The error that a report is under a policy, if it is one. -/
def error? (policy : Policy) (r : Report) : Option Error := (r.settle policy).getLeft?

/-- The log event that a report is under a policy, if it is one. -/
def event? (policy : Policy) (r : Report) : Option LogEvent := (r.settle policy).getRight?

end Report

/-! ### Values with reports -/

/-- A value, and what was met on the way to it. -/
structure Reported (α : Type) where
  value : α
  reports : List Report := []

namespace Reported

instance : Monad Reported where
  pure a := ⟨a, []⟩
  bind x f := let y := f x.value; ⟨y.value, x.reports ++ y.reports⟩

/-- Report something. -/
def report (r : Report) : Reported Unit := ⟨(), [r]⟩

/-- Report an error. -/
def fail (e : Error) : Reported Unit := report (.error e)

/-- Report several errors. -/
def failAll (es : Errors) : Reported Unit := ⟨(), es.map .error⟩

/-- Report a value that looks wrong. -/
def warn (message : String) : Reported Unit := report (.warning message)

/-- The errors under a policy. -/
def errors (policy : Policy) {α : Type} (x : Reported α) : Errors :=
  x.reports.filterMap (Report.error? policy)

/-- The log under a policy. -/
def log (policy : Policy) {α : Type} (x : Reported α) : List LogEvent :=
  x.reports.filterMap (Report.event? policy)

end Reported

end Scene
