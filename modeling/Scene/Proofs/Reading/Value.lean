/-
What a read comes to, whatever it reports.

A read goes on after an error, so its value can be spoken of by itself.  The
value of a read made of steps is that of its last step, where each step is given
the value of the one before; the reports of the steps come one after the other,
whatever they are.  Of a named object the value says that its name was
there; of objects side by side it says that their names differ, however many of
them were dropped.
-/
import Scene.Proofs.Firsts
import Scene.Proofs.Markup.Element
import Scene.Proofs.Reading.Gives
import Scene.Reading.Field

namespace Scene

variable {α β : Type}

/-! ### Steps -/

namespace Reported

@[simp] theorem value_pure (a : α) : (pure a : Reported α).value = a := rfl

@[simp] theorem value_bind (x : Reported α) (f : α → Reported β) :
    (x >>= f).value = (f x.value).value := rfl

@[simp] theorem reports_pure (a : α) : (pure a : Reported α).reports = [] := rfl

@[simp] theorem reports_bind (x : Reported α) (f : α → Reported β) :
    (x >>= f).reports = x.reports ++ (f x.value).reports := rfl

/-- A read made of two steps, by what each of them comes to. -/
theorem bind_eq {x : Reported α} {f : α → Reported β} {b : β} {rs : List Report}
    (h : f x.value = ⟨b, rs⟩) : x >>= f = ⟨b, x.reports ++ rs⟩ := by
  show (⟨(f x.value).value, x.reports ++ (f x.value).reports⟩ : Reported β) = _
  rw [h]

/-- A row of reads comes to a row of values. -/
@[simp] theorem value_mapM (f : α → Reported β) (as : List α) :
    (as.mapM f).value = as.map fun a => (f a).value := by
  induction as with
  | nil => rfl
  | cons a as ih => rw [List.mapM_cons, value_bind, value_bind, ih, value_pure, List.map_cons]

/-- A row of reads reports one after the other. -/
@[simp] theorem reports_mapM (f : α → Reported β) (as : List α) :
    (as.mapM f).reports = as.flatMap fun a => (f a).reports := by
  induction as with
  | nil => rfl
  | cons a as ih =>
    rw [List.mapM_cons, reports_bind, reports_bind, ih, reports_pure, List.append_nil,
      List.flatMap_cons]

/-- A step that gives something to go on with. -/
theorem value_bind_some {x : Reported (Option α)} {f : Option α → Reported β} {a : α}
    (h : x.value = some a) : (x >>= f).value = (f (some a)).value := by
  rw [value_bind, h]

/-- A step that only reports, and is taken only sometimes. -/
theorem value_ite_bind {p : Prop} [Decidable p] (x : Reported Unit) (f : Unit → Reported β) :
    (if p then x >>= f else f ()).value = (f ()).value := by
  split
  · rfl
  · rfl

/-- A step that may give nothing to go on with, and then gives nothing. -/
theorem exists_of_value_bind {x : Reported (Option α)} {f : Option α → Reported (Option β)} {b : β}
    (hnone : (f none).value = none) (h : (x >>= f).value = some b) :
    ∃ a, x.value = some a ∧ (f (some a)).value = some b := by
  rw [value_bind] at h
  cases hx : x.value with
  | none =>
    rw [hx, hnone] at h
    cases h
  | some a => exact ⟨a, rfl, hx ▸ h⟩

end Reported

open Reported

namespace Element

/-- The value of a child, if there is one that can be read. -/
def value? [Readable α] (e : Element) (tag : String) : Option α :=
  (e.child? tag).bind fun c => (Readable.read (c.text.getD "") : Except String α).toOption

theorem value_readValueD [Readable α] (e : Element) (tag : String) (default : α) :
    (e.readValueD tag default).value = (e.value? tag).getD default := by
  simp only [readValueD, readValue, readWith, value_bind, value_pure, value?]
  cases e.child? tag with
  | none => rfl
  | some c =>
    dsimp only [Option.bind_some]
    cases (Readable.read (c.text.getD "") : Except String α) with
    | error message => rfl
    | ok v => rfl

theorem ne_empty_of_readName {e : Element} {name : String} (h : e.readName.value = some name) :
    name ≠ "" := by
  unfold readName readName.missing at h
  split at h
  · split at h
    · cases h
    · next hne => exact Option.some.inj h ▸ hne
  · cases h

/-! ### Objects side by side -/

variable [Named α] {kept : List α} {rs : List (Reported (Option α))}

/-- Of the objects that are read those are kept that are the first of their name, and
whose name no object has that was kept before. -/
theorem value_keepUnique (kept : List α) (rs : List (Reported (Option α))) :
    (keepUnique kept rs).value = kept ++
      (firsts Named.name (rs.filterMap Reported.value)).filter
        fun x => Named.name x ∉ kept.map Named.name := by
  induction rs generalizing kept with
  | nil => exact (List.append_nil kept).symm
  | cons r rs ih =>
    rw [keepUnique, value_bind, List.filterMap_cons]
    cases r.value with
    | none => exact ih kept
    | some x =>
      simp only [nameExists_iff, firsts]
      split
      · next htaken =>
        -- nothing of the name is kept, be it the first one or not
        rw [List.filter_cons_of_neg (by simpa using htaken), List.filter_filter]
        refine (ih kept).trans (congrArg (kept ++ ·) (List.filter_congr fun y _ => ?_))
        by_cases hy : Named.name y ∈ kept.map Named.name
        · simp [hy]
        · have hne : Named.name y ≠ Named.name x := fun h => hy (h ▸ htaken)
          simp [hy, hne]
      -- it is kept, and with it the later ones of its name are out
      · next hfree =>
        rw [List.filter_cons_of_pos (by simpa using hfree), List.filter_filter, ih,
          List.append_assoc, List.singleton_append]
        refine congrArg (fun ys => kept ++ x :: ys) (List.filter_congr fun y _ => ?_)
        simp [List.mem_append]

/-- What is kept was kept before or is the value of a read. -/
theorem mem_of_mem_keepUnique {x : α} (h : x ∈ (keepUnique kept rs).value) :
    x ∈ kept ∨ ∃ r ∈ rs, r.value = some x := by
  rw [value_keepUnique] at h
  refine (List.mem_append.mp h).imp_right fun hx => ?_
  exact List.mem_filterMap.mp ((firsts_sublist _ _).subset (List.mem_of_mem_filter hx))

/-- The name of an object that was read is taken, be it by another one. -/
theorem name_mem_keepUnique {r : Reported (Option α)} {x : α} (hr : r ∈ rs)
    (hx : r.value = some x) : Named.name x ∈ (keepUnique kept rs).value.map Named.name := by
  rw [value_keepUnique, List.map_append, List.mem_append]
  by_cases htaken : Named.name x ∈ kept.map Named.name
  · exact .inl htaken
  · have hread : x ∈ rs.filterMap Reported.value := List.mem_filterMap.mpr ⟨r, hr, hx⟩
    obtain ⟨y, hy, hname⟩ := List.mem_map.mp
      (mem_map_firsts.mpr (List.mem_map_of_mem (f := Named.name) hread))
    refine .inr (List.mem_map.mpr ⟨y, List.mem_filter.mpr ⟨hy, ?_⟩, hname⟩)
    exact decide_eq_true (hname ▸ htaken)

/-- The names of what is kept differ. -/
theorem nodup_keepUnique (rs : List (Reported (Option α))) (hkept : (kept.map Named.name).Nodup) :
    ((keepUnique kept rs).value.map Named.name).Nodup := by
  rw [value_keepUnique, List.map_append, List.nodup_append]
  refine ⟨hkept, (nodup_map_firsts _ _).sublist (List.filter_sublist.map _), ?_⟩
  -- a name in both parts would have been filtered out of the second one
  rintro _ hname _ hother rfl
  obtain ⟨x, hx, hsame⟩ := List.mem_map.mp hother
  exact of_decide_eq_true (List.mem_filter.mp hx).2 (hsame ▸ hname)

theorem nodup_readAll (e : Element) (read : Element → Reported (Option α)) :
    ((e.readAll read).value.map Named.name).Nodup :=
  nodup_keepUnique _ List.nodup_nil

/-- What holds of whatever is read of a child holds of all that are kept. -/
theorem forall_mem_readAll {e : Element} {read : Element → Reported (Option α)} {p : α → Prop}
    (h : ∀ c ∈ e.children, ∀ x, (read c).value = some x → p x) :
    ∀ x ∈ (e.readAll read).value, p x := by
  intro x hx
  obtain hx | ⟨r, hr, hx⟩ := mem_of_mem_keepUnique hx
  · cases hx
  · obtain ⟨c, hc, rfl⟩ := List.mem_map.mp hr
    exact h c (mem_childrenNamed_iff.mp hc).1 x hx

end Element

end Scene
