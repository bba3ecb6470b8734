/-
Trails of a partial function.

References lead from one thing to at most one other, be these things names or
positions.  A trail follows them and lists what it leaves behind.  Everything
rests on two facts: of two trails from one start one is the beginning of the
other, and so there is one trail to a place where nothing leads on.  Such a
trail visits nothing twice, for a second visit would give a shorter way to
the same end.

A loop is a trail back to its start that visits nothing twice.  What it visits
is closed under references, and a loop is determined, up to where one enters
it, by any one thing on it.
-/
import Mathlib.Data.List.Rotate
import Mathlib.Tactic.Tauto

namespace Scene

variable {α β : Type} {f : α → Option α}

/-- `Trail f a as c`: following `f` from `a` leads through `as`, of which `a`
is the first, to `c`. -/
inductive Trail (f : α → Option α) : α → List α → α → Prop
  | nil (a : α) : Trail f a [] a
  | cons {a b c : α} {as : List α} : f a = some b → Trail f b as c → Trail f a (a :: as) c

namespace Trail

/-! ### Cutting and joining -/

/-- One step is a trail. -/
theorem single {a b : α} (h : f a = some b) : Trail f a [a] b := .cons h (.nil b)

/-- A trail goes on with another one from its end. -/
theorem append {a b c : α} {as bs : List α} (h : Trail f a as b) (h' : Trail f b bs c) :
    Trail f a (as ++ bs) c := by
  induction h with
  | nil => exact h'
  | cons hstep _ ih => exact .cons hstep (ih h')

/-- A trail of no steps ends where it starts. -/
theorem eq_of_nil {a c : α} (h : Trail f a [] c) : c = a := by
  cases h
  rfl

/-- A trail passes its start first. -/
theorem head_eq {a b c : α} {as : List α} (h : Trail f a (b :: as) c) : b = a := by
  cases h
  rfl

/-- A trail can be cut at everything that it leaves. -/
theorem split {a b c : α} {as : List α} (h : Trail f a as c) (hb : b ∈ as) :
    ∃ ls rs, as = ls ++ b :: rs ∧ Trail f a ls b ∧ Trail f b (b :: rs) c := by
  -- by recursion on the trail: the cut is at its first step, or further on
  induction h with
  | nil => cases hb
  | @cons a a' c as hstep h ih =>
    rcases List.mem_cons.mp hb with rfl | hb
    · exact ⟨[], as, rfl, .nil b, .cons hstep h⟩
    · obtain ⟨ls, rs, rfl, hls, hrs⟩ := ih hb
      exact ⟨a :: ls, rs, rfl, .cons hstep hls, hrs⟩

/-- A trail can be cut after any number of steps. -/
theorem of_append {a c : α} {as bs : List α} (h : Trail f a (as ++ bs) c) :
    ∃ b, Trail f a as b ∧ Trail f b bs c := by
  induction as generalizing a with
  | nil => exact ⟨a, .nil a, h⟩
  | cons a' as ih =>
    cases h with
    | cons hstep h =>
      obtain ⟨b, hb, hb'⟩ := ih h
      exact ⟨b, .cons hstep hb, hb'⟩

/-- A map that respects steps takes trails to trails. -/
theorem map {f' : β → Option β} (φ : α → β)
    (hφ : ∀ a b, f a = some b → f' (φ a) = some (φ b)) {a c : α} {as : List α}
    (h : Trail f a as c) : Trail f' (φ a) (as.map φ) (φ c) := by
  induction h with
  | nil => exact .nil _
  | cons hstep _ ih => exact .cons (hφ _ _ hstep) ih

/-- Where the same things lead on, there are the same trails. -/
theorem imp {f' : α → Option α} (hf : ∀ a b, f a = some b → f' a = some b) {a c : α} {as : List α}
    (h : Trail f a as c) : Trail f' a as c := by
  have h' := h.map id hf
  rwa [List.map_id] at h'

/-- Something leads on from everything that is left. -/
theorem exists_next {a b c : α} {as : List α} (h : Trail f a as c) (hb : b ∈ as) :
    ∃ b', f b = some b' := by
  obtain ⟨ls, rs, rfl, -, hrs⟩ := h.split hb
  cases hrs with
  | cons hstep _ => exact ⟨_, hstep⟩

/-- A trail does not leave a closed set. -/
theorem mem_of_closed {P : α → Prop} (hP : ∀ a b, P a → f a = some b → P b) {a c : α}
    {as : List α} (h : Trail f a as c) (ha : P a) : P c ∧ ∀ b ∈ as, P b := by
  induction h with
  | nil => exact ⟨ha, by simp⟩
  | cons hstep _ ih =>
    obtain ⟨hc, has⟩ := ih (hP _ _ ha hstep)
    exact ⟨hc, List.forall_mem_cons.mpr ⟨ha, has⟩⟩

/-! ### Trails from one start -/

/-- Of two trails from one start one is the beginning of the other. -/
theorem prefix_or_prefix {a c c' : α} {as as' : List α} (h : Trail f a as c)
    (h' : Trail f a as' c') :
    (∃ bs, as' = as ++ bs ∧ Trail f c bs c') ∨ ∃ bs, as = as' ++ bs ∧ Trail f c' bs c := by
  induction h generalizing as' with
  | nil => exact .inl ⟨as', rfl, h'⟩
  | @cons a b c as hstep h ih =>
    cases h' with
    | nil => exact .inr ⟨_, rfl, .cons hstep h⟩
    | cons hstep' h' =>
      -- both take the same first step, since at most one leads on
      obtain rfl := Option.some.inj (hstep.symm.trans hstep')
      obtain ⟨bs, rfl, hbs⟩ | ⟨bs, rfl, hbs⟩ := ih h'
      · exact .inl ⟨bs, rfl, hbs⟩
      · exact .inr ⟨bs, rfl, hbs⟩

/-- Nothing is left behind after an end. -/
theorem eq_nil_of_end {a c : α} {as : List α} (h : Trail f a as c) (hend : f a = none) :
    as = [] ∧ c = a := by
  cases h with
  | nil => exact ⟨rfl, rfl⟩
  | cons hstep _ => rw [hend] at hstep; cases hstep

/-- There is one trail to an end. -/
theorem unique_of_end {a c c' : α} {as as' : List α} (h : Trail f a as c)
    (h' : Trail f a as' c') (hend : f c = none) (hend' : f c' = none) : as = as' ∧ c = c' := by
  obtain ⟨bs, rfl, hbs⟩ | ⟨bs, rfl, hbs⟩ := h.prefix_or_prefix h'
  · -- nothing can follow an end, so what is left over is empty
    obtain ⟨rfl, rfl⟩ := hbs.eq_nil_of_end hend
    exact ⟨(List.append_nil as).symm, rfl⟩
  · obtain ⟨rfl, rfl⟩ := hbs.eq_nil_of_end hend'
    exact ⟨List.append_nil as', rfl⟩

/-- The trail to an end visits nothing twice. -/
theorem nodup_of_end {a c : α} {as : List α} (h : Trail f a as c) (hend : f c = none) :
    as.Nodup := by
  induction h with
  | nil => exact List.nodup_nil
  | @cons a b c as hstep h ih =>
    refine List.nodup_cons.mpr ⟨fun hmem => ?_, ih hend⟩
    -- from a second visit there would be a shorter way to the same end
    obtain ⟨ls, rs, rfl, -, hrs⟩ := h.split hmem
    obtain ⟨heq, -⟩ := hrs.unique_of_end (.cons hstep h) hend hend
    have := congrArg List.length heq
    simp only [List.length_cons, List.length_append] at this
    omega

/-- A trail that comes back somewhere is not on the way to an end. -/
theorem not_mem_of_end {a c c' : α} {as as' : List α} (h : Trail f a as c) (hend : f c = none)
    (h' : Trail f a as' c') : c' ∉ as' := by
  intro hmem
  obtain ⟨bs, rfl, hbs⟩ | ⟨bs, rfl, hbs⟩ := h.prefix_or_prefix h'
  · -- the second trail goes on from the end
    obtain ⟨-, rfl⟩ := hbs.eq_nil_of_end hend
    obtain ⟨b, hb⟩ := h'.exists_next hmem
    rw [hend] at hb
    cases hb
  · -- the second trail is part of one that visits nothing twice
    have hnodup := h.nodup_of_end hend
    cases hbs with
    -- without a rest both stop at the end, and nothing leads on from there
    | nil =>
      obtain ⟨b, hb⟩ := h'.exists_next hmem
      rw [hend] at hb
      cases hb
    | cons => exact (List.nodup_append.mp hnodup).2.2 c' hmem c' List.mem_cons_self rfl

/-- A trail that stops at its first return goes no further than any other one
without repetitions. -/
theorem unique_of_return {a c c' : α} {as as' : List α} (h : Trail f a as c)
    (h' : Trail f a as' c') (hc : c ∈ as) (hc' : c' ∈ as') (hnodup : as.Nodup)
    (hnodup' : as'.Nodup) : as = as' ∧ c = c' := by
  obtain ⟨bs, rfl, hbs⟩ | ⟨bs, rfl, hbs⟩ := h.prefix_or_prefix h'
  · cases hbs with
    | nil => exact ⟨(List.append_nil as).symm, rfl⟩
    -- the longer trail would visit the return of the shorter one twice
    | cons => exact absurd rfl ((List.nodup_append.mp hnodup').2.2 c hc c List.mem_cons_self)
  · cases hbs with
    | nil => exact ⟨List.append_nil as', rfl⟩
    | cons => exact absurd rfl ((List.nodup_append.mp hnodup).2.2 c' hc' c' List.mem_cons_self)

end Trail

/-! ### Loops -/

/-- A trail back to its start that visits nothing twice. -/
def IsLoop (f : α → Option α) (as : List α) : Prop :=
  ∃ a, as ≠ [] ∧ Trail f a as a ∧ as.Nodup

namespace IsLoop

/-- A loop passes something. -/
theorem exists_mem {as : List α} (h : IsLoop f as) : ∃ a, a ∈ as := by
  obtain ⟨-, hne, -⟩ := h
  exact List.exists_mem_of_ne_nil as hne

/-- A loop can be entered anywhere. -/
theorem exists_isRotated {as : List α} (h : IsLoop f as) {a : α} (ha : a ∈ as) :
    ∃ bs, as ~r a :: bs ∧ Trail f a (a :: bs) a ∧ (a :: bs).Nodup := by
  obtain ⟨b, -, htrail, hnodup⟩ := h
  obtain ⟨ls, rs, rfl, hls, hrs⟩ := htrail.split ha
  -- the two parts of the loop, in the other order, begin and end at `a`
  have hrot : ls ++ a :: rs ~r a :: (rs ++ ls) := List.isRotated_append
  exact ⟨rs ++ ls, hrot, hrs.append hls, hrot.nodup_iff.mp hnodup⟩

/-- References do not leave a loop. -/
theorem mem_of_next {as : List α} (h : IsLoop f as) {a b : α} (ha : a ∈ as)
    (hb : f a = some b) : b ∈ as := by
  obtain ⟨bs, hrot, htrail, -⟩ := h.exists_isRotated ha
  rw [hrot.mem_iff]
  cases htrail with
  | cons hstep htrail =>
    obtain rfl := Option.some.inj (hb.symm.trans hstep)
    cases htrail with
    | nil => exact List.mem_cons_self
    | cons => exact List.mem_cons_of_mem _ List.mem_cons_self

/-- A trail from a loop stays on it. -/
theorem mem_of_trail {as bs : List α} (h : IsLoop f as) {a b : α} (ha : a ∈ as)
    (htrail : Trail f a bs b) : b ∈ as :=
  (htrail.mem_of_closed (fun _ _ => h.mem_of_next) ha).1

/-- On a loop there is always a next step. -/
theorem exists_next {as : List α} (h : IsLoop f as) {a : α} (ha : a ∈ as) :
    ∃ b, f a = some b := by
  obtain ⟨b, -, htrail, -⟩ := h
  exact htrail.exists_next ha

/-- Loops that share something are the same. -/
theorem isRotated_of_mem {as bs : List α} (h : IsLoop f as) (h' : IsLoop f bs) {a : α}
    (ha : a ∈ as) (ha' : a ∈ bs) : as ~r bs := by
  obtain ⟨as', hrot, htrail, hnodup⟩ := h.exists_isRotated ha
  obtain ⟨bs', hrot', htrail', hnodup'⟩ := h'.exists_isRotated ha'
  -- entered at the shared thing, both are the trail that stops at its first return
  obtain ⟨heq, -⟩ := htrail.unique_of_return htrail' List.mem_cons_self List.mem_cons_self
    hnodup hnodup'
  rw [heq] at hrot
  exact hrot.trans hrot'.symm

end IsLoop

end Scene
