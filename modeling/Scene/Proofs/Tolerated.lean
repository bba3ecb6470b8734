/-
What becomes of a text does not depend on the policy.

A text is read without regard to the policy and to the document that was there
before.  So two loads of a text give the same document, unless the text is no
markup: then each leaves its document as it was, after one error.

The policy decides where a problem is told.  Among the errors of a strict load
those of doubtful values and of unknown tags can be recognized, for reports are
honest: what is in its own words was made by the policy.  Where a policy treats
one of these two classes as no error, its errors are left out, and each is an
event of the log instead; nothing else is different, except that the last event
of the log counts fewer errors.

That reports are settled last is no more than a way to say this.  With the
policy at hand, and the errors and the log handed on from step to step, the same
comes out.

Main statements:

* `Document.load_depends_on_text`: one text, two policies, two documents before.
* `Document.load_eq_settling`: a load, with the policy at hand.
-/
import Scene.Proofs.Reading.Honest

namespace Scene

/-! ### Judging errors -/

/-- Whether the event is that of a tolerated problem: other ones have named
values. -/
def LogEvent.isNotice (event : LogEvent) : Bool := event.fields.isEmpty

namespace Policy

variable (policy : Policy) {e : Error}

/-- How the policy treats problems like the error.  Only doubtful values and
elements of unknown tags can be tolerated. -/
def enforcement : Error → Enforcement
  | .other .elementInvalid _ => policy.warnings
  | .other .elementIncorrectType _ => policy.unrecognized
  | _ => .error

/-- Whether the error remains one. -/
def insists (e : Error) : Bool := policy.enforcement e == .error

/-- The event that stands for the error in the log, if it does not remain. -/
def notice? (e : Error) : Option LogEvent :=
  match policy.enforcement e with
  | .error => none
  | .warn => some { level := .warn, message := e.message }
  | .log => some { level := .debug, message := e.message }

/-- The error, or its notice if it has one. -/
def told (e : Error) : Error ⊕ LogEvent := (policy.notice? e).elim (.inl e) .inr

/-- An error has a notice unless it remains. -/
theorem insists_eq_isNone_notice? (e : Error) : policy.insists e = (policy.notice? e).isNone := by
  unfold insists notice?
  cases policy.enforcement e with
  | error => rfl
  | warn => rfl
  | log => rfl

/-- An error that the policy insists on is told as it is. -/
theorem getLeft?_told (e : Error) :
    (policy.told e).getLeft? = (some e).filter policy.insists := by
  unfold told
  cases h : policy.notice? e with
  | none => simp [Option.filter, insists_eq_isNone_notice?, h]
  | some event => simp [Option.filter, insists_eq_isNone_notice?, h]

/-- The event that is told is the notice. -/
theorem getRight?_told (e : Error) : (policy.told e).getRight? = policy.notice? e := by
  unfold told
  cases policy.notice? e with
  | none => rfl
  | some event => rfl

/-- Errors that name a cause are never tolerated. -/
theorem told_of_cause (h : e.isOther = false) : policy.told e = .inl e := by
  cases e with
  | other => cases h
  | _ => rfl

/-- What enforcing a class of problems makes of one, in the words above. -/
theorem told_other (code : ErrorCode) (message : String) {enforcement : Enforcement}
    (h : policy.enforcement (.other code message) = enforcement) :
    policy.told (.other code message) = Report.enforce enforcement code message := by
  unfold told notice?
  rw [h]
  cases enforcement with
  | error => rfl
  | warn => rfl
  | log => rfl

/-- Notices can be told from the other events of the log. -/
theorem isNotice_of_notice? {event : LogEvent} (h : policy.notice? e = some event) :
    event.isNotice = true := by
  unfold notice? at h
  split at h
  · cases h
  · obtain rfl := Option.some.inj h
    rfl
  · obtain rfl := Option.some.inj h
    rfl

/-- Keeping only notices keeps every notice. -/
theorem filter_notice? (e : Error) :
    (policy.notice? e).filter LogEvent.isNotice = policy.notice? e := by
  cases h : policy.notice? e with
  | none => rfl
  | some event => simp [policy.isNotice_of_notice? h]

/-- Keeping only other events keeps no notice. -/
theorem filter_not_notice? (e : Error) :
    (policy.notice? e).filter (fun event => !event.isNotice) = none := by
  rw [← policy.filter_notice? e, Option.filter_filter]
  simp

end Policy

/-! ### Single reports -/

namespace Report.Honest

variable {r : Report} (policy : Policy)

/-- An error of the strictest policy is told as the policy wants it, and what
is an event there is the same event under every policy. -/
theorem settle_eq (h : r.Honest) :
    r.settle policy = (r.settle .pedantic).elim policy.told .inr := by
  cases r with
  | error e => exact (policy.told_of_cause h).symm
  | warning message => exact (policy.told_other .elementInvalid message rfl).symm
  | unrecognized message => exact (policy.told_other .elementIncorrectType message rfl).symm
  | remark => rfl

/-- The strictest policy gives no notices. -/
theorem isNotice_eq_false (h : r.Honest) {event : LogEvent}
    (hevent : r.settle .pedantic = .inr event) : event.isNotice = false := by
  cases r with
  | remark message fields =>
    obtain rfl : _ = event := Sum.inr.inj hevent
    exact List.isEmpty_eq_false_iff.mpr h
  | _ => cases hevent

/-- The error of a report is the strictest policy's, if the policy insists on it. -/
theorem error?_eq (h : r.Honest) :
    r.error? policy = (r.error? .pedantic).filter policy.insists := by
  unfold error?
  rw [h.settle_eq policy]
  cases r.settle .pedantic with
  | inl e => exact policy.getLeft?_told e
  | inr event => rfl

/-- A report has a notice if the strictest policy's error has one. -/
theorem notice_eq (h : r.Honest) :
    (r.event? policy).filter LogEvent.isNotice = (r.error? .pedantic).bind policy.notice? := by
  unfold event? error?
  rw [h.settle_eq policy]
  cases hsettle : r.settle .pedantic with
  | inl e => simp [policy.getRight?_told, policy.filter_notice?]
  | inr event => simp [h.isNotice_eq_false hsettle]

/-- The other events are those of the strictest policy. -/
theorem remark_eq (h : r.Honest) :
    (r.event? policy).filter (fun event => !event.isNotice) = r.event? .pedantic := by
  unfold event?
  rw [h.settle_eq policy]
  cases hsettle : r.settle .pedantic with
  | inl e => simp [policy.getRight?_told, policy.filter_not_notice?]
  | inr event => simp [h.isNotice_eq_false hsettle]

end Report.Honest

/-! ### Reads -/

namespace Reported.Honest

variable {α : Type} {x : Reported α} (policy : Policy)

/-- The errors are the strictest policy's that the policy insists on. -/
theorem errors_eq (h : x.Honest) :
    x.errors policy = (x.errors .pedantic).filter policy.insists := by
  unfold errors
  rw [List.filter_filterMap]
  exact List.filterMap_congr fun r hr => (h r hr).error?_eq policy

/-- The notices in the log are those of the strictest policy's errors, in their
order. -/
theorem notices_eq (h : x.Honest) :
    (x.log policy).filter LogEvent.isNotice = (x.errors .pedantic).filterMap policy.notice? := by
  unfold log errors
  rw [List.filter_filterMap, List.filterMap_filterMap]
  exact List.filterMap_congr fun r hr => (h r hr).notice_eq policy

/-- The rest of the log is the strictest policy's. -/
theorem remarks_eq (h : x.Honest) :
    (x.log policy).filter (fun event => !event.isNotice) = x.log .pedantic := by
  unfold log
  rw [List.filter_filterMap]
  exact List.filterMap_congr fun r hr => (h r hr).remark_eq policy

end Reported.Honest

/-! ### Settling on the way -/

/-- The errors and the log so far. -/
structure Account where
  errors : Errors := []
  log : List LogEvent := []

/-- Settle a report when it is met. -/
def Account.enter (policy : Policy) (account : Account) (r : Report) : Account :=
  match r.settle policy with
  | .inl e => { account with errors := account.errors ++ [e] }
  | .inr event => { account with log := account.log ++ [event] }

namespace Reported

variable {α β : Type} (policy : Policy)

/-- Read with the policy at hand: each report is settled when it is met. -/
def settling (x : Reported α) : StateM Account α := fun account =>
  (x.value, x.reports.foldl (.enter policy) account)

/-- A value that is given leaves the errors and the log. -/
theorem settling_pure (a : α) : settling policy (pure a) = pure a := rfl

/-- A step hands the errors and the log on to the next one. -/
theorem settling_bind (x : Reported α) (f : α → Reported β) :
    (x >>= f).settling policy = x.settling policy >>= fun a => (f a).settling policy := by
  funext account
  exact Prod.ext rfl List.foldl_append

/-- **It makes no difference whether reports are settled when they are met or
afterwards.** -/
theorem settling_eq (x : Reported α) (account : Account) :
    x.settling policy account =
      (x.value, ⟨account.errors ++ x.errors policy, account.log ++ x.log policy⟩) := by
  obtain ⟨value, reports⟩ := x
  induction reports generalizing account with
  | nil => simp [settling, errors, log]
  | cons r reports ih =>
    -- the other reports are settled with the first one on the account
    have hrest := ih (account.enter policy r)
    unfold settling errors log at hrest ⊢
    rw [List.foldl_cons, hrest]
    cases hsettle : r.settle policy with
    | inl e => simp [Account.enter, Report.error?, Report.event?, hsettle]
    | inr event => simp [Account.enter, Report.error?, Report.event?, hsettle]

/-- The next step is taken with what the first one gives, and with its errors
and its log on the account. -/
theorem settling_bind_apply (x : Reported α) (f : α → Reported β) (account : Account) :
    (x >>= f).settling policy account =
      (f x.value).settling policy
        ⟨account.errors ++ x.errors policy, account.log ++ x.log policy⟩ := by
  rw [settling_bind]
  exact congrArg (fun result => (f result.1).settling policy result.2) (x.settling_eq policy account)

end Reported

/-! ### Loading -/

namespace Markup

/-- Texts outside the root are remarked on with the text. -/
theorem honest_readDocument (text : String) : (readDocument text).Honest :=
  List.forall_mem_map.mpr fun _ _ => List.cons_ne_nil _ _

/-- Markup that cannot be read is no report, but the value. -/
theorem errors_readDocument (policy : Policy) (text : String) :
    (readDocument text).errors policy = [] :=
  List.filterMap_eq_nil_iff.mpr (List.forall_mem_map.mpr fun _ _ => rfl)

end Markup

namespace Document

open Markup Reported

/-- A load as a strict load with some of its errors tolerated: they are in the
log, in their order, and not among the errors.  The other events are the same up
to the last one. -/
structure Loaded.Tolerates (policy : Policy) (loaded strict : Loaded) : Prop where
  document : loaded.document = strict.document
  errors : loaded.errors = strict.errors.filter policy.insists
  notices : loaded.log.filter LogEvent.isNotice = strict.errors.filterMap policy.notice?
  others : loaded.log.filter (fun event => !event.isNotice) =
    strict.log.dropLast ++ [summary loaded.document loaded.errors.length]

variable {before : Document} {policy : Policy} {text : String}

/-- A text that is no markup leaves the document, and one error. -/
theorem load_of_error {e : MarkupError} (h : (readDocument text).value = .error e) :
    load before policy text =
      { document := before
        errors := [.parse e.message]
        log := (readDocument text).log policy } := by
  unfold load
  simp only [h]

/-- Of markup, the document is what its root says, whatever was there before. -/
theorem load_of_ok {root : Element} (h : (readDocument text).value = .ok root) :
    load before policy text =
      { document := (ofElement root).value
        errors := (ofElement root).errors policy
        log := (readDocument text).log policy ++ (ofElement root).log policy
          ++ [summary (ofElement root).value ((ofElement root).errors policy).length] } := by
  unfold load
  simp only [h]

/-- Read a document from a text: its markup first, and then what it says. -/
def readText (text : String) : Reported (Except MarkupError Document) := do
  match ← readDocument text with
  | .error e => pure (.error e)
  | .ok root => do
    let d ← ofElement root
    pure (.ok d)

/-- **A load is a read with the policy at hand**, from no errors and an empty
log, each report being settled before the next thing is read.  A text that is no
markup adds its error and leaves the document; after any other one a summary is
added to the log. -/
theorem load_eq_settling (before : Document) (policy : Policy) (text : String) :
    load before policy text =
      match (readText text).settling policy {} with
      | (.error e, account) =>
        { document := before
          errors := account.errors ++ [.parse e.message]
          log := account.log }
      | (.ok d, account) =>
        { document := d
          errors := account.errors
          log := account.log ++ [summary d account.errors.length] } := by
  have hmarkup : (readDocument text).errors policy = [] := errors_readDocument policy text
  unfold readText
  rw [settling_bind_apply, hmarkup]
  cases h : (readDocument text).value with
  | error e =>
    -- nothing is read after the markup
    rw [load_of_error h]
    rfl
  | ok root =>
    rw [load_of_ok h]
    simp only [settling_bind_apply, settling_pure]
    rfl

/-- A load of markup is the strict load with some of its errors tolerated. -/
theorem tolerates_of_ok {before' : Document} {root : Element}
    (h : (readDocument text).value = .ok root) :
    (load before policy text).Tolerates policy (load before' .pedantic text) := by
  have hmarkup := honest_readDocument text
  have hread := honest_ofElement root
  rw [load_of_ok h, load_of_ok h]
  refine ⟨rfl, hread.errors_eq policy, ?_, ?_⟩
  · simp only [List.filter_append, hmarkup.notices_eq, hread.notices_eq, errors_readDocument]
    simp [summary, LogEvent.isNotice]
  -- the summary comes last in both logs; it is no notice, and may differ
  · simp only [List.filter_append, List.dropLast_concat, hmarkup.remarks_eq, hread.remarks_eq]
    rfl

/-- **A text says the same under every policy and in place of every document.**
If it is no markup then each document stays, with the same error; otherwise the
new documents are equal, and the errors that a policy tolerates are events of the
log instead, with everything else as it is under the strictest policy. -/
theorem load_depends_on_text (before before' : Document) (policy policy' : Policy)
    (text : String) :
    match Element.ofDocument text with
    | .error e =>
      e.code = .parseError ∧
      ((load before policy text).document = before ∧
        (load before policy text).errors = [e]) ∧
      (load before' policy' text).document = before' ∧
        (load before' policy' text).errors = [e]
    | .ok _ =>
      (load before policy text).document = (load before' policy' text).document ∧
      (load before policy text).Tolerates policy (load before' .pedantic text) := by
  unfold Element.ofDocument
  cases h : (readDocument text).value with
  | error e =>
    rw [load_of_error h, load_of_error h]
    exact ⟨rfl, ⟨rfl, rfl⟩, rfl, rfl⟩
  | ok root =>
    refine ⟨?_, tolerates_of_ok h⟩
    rw [load_of_ok h, load_of_ok h]

example :
    (load .empty .pedantic "<sdf version='1.9'><moon/><world/></sdf>").errors =
        [.other .elementIncorrectType "unrecognized element <moon> in sdf",
          .missingAttribute "name" "world"] ∧
      (load .empty .standard "<sdf version='1.9'><moon/><world/></sdf>").errors =
        [.missingAttribute "name" "world"] ∧
      (load .empty .standard "<sdf version='1.9'><moon/><world/></sdf>").log.head? =
        some { level := .debug, message := "unrecognized element <moon> in sdf" } := by
  decide +kernel

end Document

end Scene
