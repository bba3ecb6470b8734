/-
Reading without errors.

A read gives a value under a policy if it comes to that value and no report on
the way is an error.  What a read made of steps gives is decided by its steps:
all of them must give something, in turn.  So a reader written with `do` is
taken apart, or put together, by rewriting with the lemmas of this module, and
nothing about reports is left in later ones.
-/
import Mathlib.Data.List.Forall2
import Scene.Diagnostic.Report

namespace Scene.Reported

variable {α β : Type} {policy : Policy}

/-- The read comes to a value and meets no error under the policy. -/
def Gives (policy : Policy) (x : Reported α) (a : α) : Prop :=
  x.errors policy = [] ∧ x.value = a

/-- A read without errors gives its value. -/
theorem gives_of_errors_eq_nil {x : Reported α} (h : x.errors policy = []) :
    x.Gives policy x.value := ⟨h, rfl⟩

/-- A read gives one value. -/
theorem Gives.unique {x : Reported α} {a b : α} (ha : x.Gives policy a)
    (hb : x.Gives policy b) : a = b := ha.2.symm.trans hb.2

/-! ### Steps -/

/-- Reports of steps are appended, which is associative. -/
instance : LawfulMonad Reported :=
  LawfulMonad.mk' _ (by simp [Functor.map]) (by simp [bind, pure]) (by simp [bind])

@[simp] theorem gives_pure {a b : α} : (pure a : Reported α).Gives policy b ↔ a = b := by
  simp [Gives, errors, pure]

@[simp] theorem gives_bind {x : Reported α} {f : α → Reported β} {b : β} :
    (x >>= f).Gives policy b ↔ ∃ a, x.Gives policy a ∧ (f a).Gives policy b := by
  constructor
  · rintro ⟨herrors, hvalue⟩
    -- errors are never taken back, so neither step has any
    have hsplit : x.errors policy ++ (f x.value).errors policy = [] := by
      rw [← herrors]
      simp [errors, bind]
    obtain ⟨hx, hf⟩ := List.append_eq_nil_iff.mp hsplit
    exact ⟨x.value, ⟨hx, rfl⟩, hf, hvalue⟩
  · rintro ⟨a, ⟨hx, rfl⟩, hf, hvalue⟩
    refine ⟨?_, hvalue⟩
    have hsplit : (x >>= f).errors policy = x.errors policy ++ (f x.value).errors policy := by
      simp [errors, bind]
    rw [hsplit, hx, hf, List.append_nil]

@[simp] theorem gives_map {x : Reported α} {f : α → β} {b : β} :
    (f <$> x).Gives policy b ↔ ∃ a, x.Gives policy a ∧ f a = b := by
  rw [← bind_pure_comp, gives_bind]
  simp only [gives_pure]

/-- A row of reads gives a row of values, one each. -/
theorem gives_mapM {f : α → Reported β} {as : List α} {bs : List β} :
    (as.mapM f).Gives policy bs ↔ List.Forall₂ (fun a b => (f a).Gives policy b) as bs := by
  induction as generalizing bs with
  | nil => simp [eq_comm]
  | cons a as ih =>
    simp only [List.mapM_cons, gives_bind, gives_pure, ih, List.forall₂_cons_left_iff]
    constructor
    · rintro ⟨b, hb, bs, hbs, rfl⟩
      exact ⟨b, bs, hb, hbs, rfl⟩
    · rintro ⟨b, bs, hb, hbs, rfl⟩
      exact ⟨b, hb, bs, hbs, rfl⟩

/-! ### Reports -/

/-- Reports are no hindrance if none is an error. -/
theorem gives_iff_forall {x : Reported α} {a : α} :
    x.Gives policy a ↔ (∀ r ∈ x.reports, r.error? policy = none) ∧ x.value = a := by
  rw [Gives, errors, List.filterMap_eq_nil_iff]

/-- A doubtful value is no error exactly if the policy does not make it one. -/
theorem error?_warning {message : String} :
    (Report.warning message).error? policy = none ↔ policy.warnings ≠ .error := by
  cases h : policy.warnings with
  | error => simp [Report.error?, Report.settle, Report.enforce, h]
  | warn => simp [Report.error?, Report.settle, Report.enforce, h]
  | log => simp [Report.error?, Report.settle, Report.enforce, h]

/-- An unknown tag is no error exactly if the policy does not make it one. -/
theorem error?_unrecognized {message : String} :
    (Report.unrecognized message).error? policy = none ↔ policy.unrecognized ≠ .error := by
  cases h : policy.unrecognized with
  | error => simp [Report.error?, Report.settle, Report.enforce, h]
  | warn => simp [Report.error?, Report.settle, Report.enforce, h]
  | log => simp [Report.error?, Report.settle, Report.enforce, h]

@[simp] theorem gives_fail {e : Error} {u : Unit} : ¬ (fail e).Gives policy u := by
  simp [gives_iff_forall, fail, report, Report.error?, Report.settle]

@[simp] theorem gives_failAll {es : Errors} {u : Unit} :
    (failAll es).Gives policy u ↔ es = [] := by
  simp [gives_iff_forall, failAll, Report.error?, Report.settle, List.eq_nil_iff_forall_not_mem]

@[simp] theorem gives_warn {message : String} {u : Unit} :
    (warn message).Gives policy u ↔ policy.warnings ≠ .error := by
  simp [gives_iff_forall, warn, report, error?_warning]

@[simp] theorem gives_remark {message : String} {fields : List (String × String)} {u : Unit} :
    (report (.remark message fields)).Gives policy u := by
  simp [gives_iff_forall, report, Report.error?, Report.settle]

end Scene.Reported
