/-
Reads that report more.

Two reads are compared.  They come to the same value, and what the second one
reports is what the first one does with a block put in at one place.  A read made
of steps can be compared step by step: if one of its steps has more to report,
and none of the others is changed, then so has the whole.

Of objects side by side one may be added that is not kept, because it could not
be read or because its name is taken: then the row of the kept ones is the same,
and the block is what was reported of the one that was added.  And one may have
more to report itself.

Two elements that differ at most in their children of one tag give the same in
all fields but the one of that tag.
-/
import Scene.Proofs.Frames.Draft
import Scene.Proofs.Reading.Gives
import Scene.Proofs.Reading.Value

namespace Scene

variable {α β : Type}

/-! ### Blocks -/

/-- The second row is the first one with a block put in at some place. -/
def Inserted (block xs ys : List α) : Prop :=
  ∃ front back, xs = front ++ back ∧ ys = front ++ block ++ back

namespace Inserted

variable {block xs ys : List α}

theorem refl (xs : List α) : Inserted [] xs xs := ⟨xs, [], by simp, by simp⟩

/-- What follows stays behind the block. -/
theorem append_right (h : Inserted block xs ys) (zs : List α) :
    Inserted block (xs ++ zs) (ys ++ zs) := by
  obtain ⟨front, back, rfl, rfl⟩ := h
  exact ⟨front, back ++ zs, by simp, by simp⟩

/-- What comes before stays in front of the block. -/
theorem append_left (h : Inserted block xs ys) (zs : List α) :
    Inserted block (zs ++ xs) (zs ++ ys) := by
  obtain ⟨front, back, rfl, rfl⟩ := h
  exact ⟨zs ++ front, back, by simp, by simp⟩

/-- Of the block, what is picked is in between again. -/
theorem filterMap (h : Inserted block xs ys) (f : α → Option β) :
    Inserted (block.filterMap f) (xs.filterMap f) (ys.filterMap f) := by
  obtain ⟨front, back, rfl, rfl⟩ := h
  exact ⟨front.filterMap f, back.filterMap f, by simp, by simp⟩

end Inserted

/-! ### Steps -/

namespace Reported

/-- Both reads come to one value, and the second one reports a block more. -/
structure Grows (block : List Report) (x y : Reported α) : Prop where
  value : y.value = x.value
  reports : Inserted block x.reports y.reports

namespace Grows

variable {block : List Report}

theorem refl (x : Reported α) : Grows [] x x := ⟨rfl, .refl _⟩

/-- More to report at the beginning. -/
theorem within {x y : Reported α} (h : Grows block x y) (f : α → Reported β) :
    Grows block (x >>= f) (y >>= f) := by
  obtain ⟨value, reports⟩ := x
  obtain ⟨_, reports'⟩ := y
  obtain rfl : _ = value := h.value
  exact ⟨rfl, h.reports.append_right _⟩

/-- More to report after a step. -/
theorem after {x : Reported α} {f g : α → Reported β}
    (h : Grows block (f x.value) (g x.value)) : Grows block (x >>= f) (x >>= g) :=
  ⟨h.value, h.reports.append_left _⟩

/-- More to report at the very beginning: a step, and what it leads to before the
rest goes on. -/
theorem before {x : Reported α} {f : α → Reported β} {y : Reported β} (told : Reported Unit)
    (h : f x.value = told >>= fun _ => y) : Grows (x.reports ++ told.reports) y (x >>= f) := by
  have hbind : x >>= f = x >>= fun _ => told >>= fun _ => y :=
    congrArg (fun z : Reported β => (⟨z.value, x.reports ++ z.reports⟩ : Reported β)) h
  rw [hbind]
  exact ⟨rfl, [], y.reports, rfl, (List.append_assoc ..).symm⟩

/-- More to report after a step that may give nothing to go on with: then nothing
more is reported. -/
theorem afterOption {x : Reported (Option α)} {f g : Option α → Reported (Option β)}
    (hnone : f none = pure none) (hnone' : g none = pure none)
    (hbuilt : ∀ a, (f (some a)).value.isSome = true)
    (hsome : ∀ a, Grows block (f (some a)) (g (some a))) :
    Grows (if (x >>= f).value.isSome then block else []) (x >>= f) (x >>= g) := by
  rw [value_bind]
  cases hx : x.value with
  | none =>
    rw [hnone]
    refine after ?_
    rw [hx, hnone, hnone']
    exact refl _
  | some a =>
    rw [if_pos (hbuilt a)]
    refine after ?_
    rw [hx]
    exact hsome a

/-- The errors of a read that grows have those of the block in between. -/
theorem errors {x y : Reported α} (h : Grows block x y) (policy : Policy) :
    Inserted (block.filterMap (Report.error? policy)) (x.errors policy) (y.errors policy) :=
  h.reports.filterMap _

end Grows

end Reported

open Reported

/-! ### Objects side by side -/

namespace Element

variable [Named α] {kept : List α} {rs ss : List (Reported (Option α))} {r : Reported (Option α)}

/-- A row is kept part by part, with what was kept before. -/
theorem keepUnique_append (kept : List α) (rs ss : List (Reported (Option α))) :
    keepUnique kept (rs ++ ss) = keepUnique kept rs >>= fun xs => keepUnique xs ss := by
  -- the second row goes on from whatever was kept of the first
  induction rs generalizing kept with
  | nil => simp [keepUnique]
  | cons r rs ih =>
    rw [List.cons_append, keepUnique, keepUnique, bind_assoc]
    congr 1
    funext found
    cases found with
    | none => exact ih kept
    | some x =>
      dsimp only
      split
      · rw [bind_assoc]
        congr 1
        funext _
        exact ih kept
      · exact ih (kept ++ [x])

end Element

open Element

namespace Reported.Grows

variable [Named α] {rs ss : List (Reported (Option α))} {r r' : Reported (Option α)}

/-- One more object that could not be read. -/
theorem keepUnique_of_none (h : r.value = none) :
    Grows r.reports (keepUnique [] (rs ++ ss)) (keepUnique [] (rs ++ r :: ss)) := by
  rw [keepUnique_append, keepUnique_append]
  refine after ?_
  rw [keepUnique, ← List.append_nil r.reports]
  refine before (pure ()) ?_
  rw [h]
  rfl

/-- One more object whose name an earlier one has. -/
theorem keepUnique_of_taken {x y : α} (hx : r.value = some x) (hr' : r' ∈ rs)
    (hy : r'.value = some y) (hname : Named.name y = Named.name x) :
    Grows (r.reports ++ [.error (.duplicateName (Named.kind α) (Named.name x))])
      (keepUnique [] (rs ++ ss)) (keepUnique [] (rs ++ r :: ss)) := by
  -- of that name something was kept, be it this earlier object or another one
  have htaken : nameExists (keepUnique [] rs).value (Named.name x) = true :=
    nameExists_iff.mpr (hname ▸ name_mem_keepUnique hr' hy)
  rw [keepUnique_append, keepUnique_append]
  refine after ?_
  rw [keepUnique]
  refine before (fail (.duplicateName (Named.kind α) (Named.name x))) ?_
  simp only [hx, htaken, if_true]

/-- An object that has more to report itself. -/
theorem keepUnique_of_grows {block : List Report} (h : Grows block r r') :
    Grows block (keepUnique [] (rs ++ r :: ss)) (keepUnique [] (rs ++ r' :: ss)) := by
  rw [keepUnique_append, keepUnique_append]
  refine after ?_
  rw [keepUnique, keepUnique]
  exact h.within _

end Reported.Grows

/-! ### Elements that are alike but for one tag -/

namespace Element

/-- The elements differ at most in their children of a tag. -/
structure AlikeBut (t : String) (e e' : Element) : Prop where
  tag : e'.tag = e.tag
  attributes : e'.attributes = e.attributes
  others : e'.children.filter (fun c => !c.tag == t) = e.children.filter fun c => !c.tag == t

/-- Some children of the tag in place of others. -/
theorem alikeBut_between {t : String} (e : Element) (before after : List Element)
    {cs cs' : List Element} (hcs : ∀ c ∈ cs, c.tag = t) (hcs' : ∀ c ∈ cs', c.tag = t) :
    AlikeBut t { e with children := before ++ (cs ++ after) }
      { e with children := before ++ (cs' ++ after) } := by
  have hnone {cs : List Element} (hcs : ∀ c ∈ cs, c.tag = t) :
      (cs.filter fun c => !c.tag == t) = [] := by
    simpa using hcs
  refine ⟨rfl, rfl, ?_⟩
  simp only [List.filter_append, hnone hcs, hnone hcs']

namespace AlikeBut

variable {t tag : String} {e e' : Element}

/-- Children that are not of the tag are the same. -/
theorem filter_children (h : AlikeBut t e e') {p : Element → Bool}
    (hp : ∀ c, c.tag = t → p c = false) : e'.children.filter p = e.children.filter p := by
  -- children of the tag may be left out first, since `p` leaves them out as well
  have hsplit (cs : List Element) : cs.filter p = (cs.filter fun c => !c.tag == t).filter p := by
    rw [List.filter_filter]
    refine List.filter_congr fun c _ => ?_
    by_cases hc : c.tag = t
    · simp [hp c hc]
    · simp [hc]
  rw [hsplit e'.children, h.others, ← hsplit]

theorem attribute? (h : AlikeBut t e e') (name : String) :
    e'.attribute? name = e.attribute? name := by
  rw [Element.attribute?, h.attributes, Element.attribute?]

/-- Errors name both elements alike. -/
theorem describe (h : AlikeBut t e e') : e'.describe = e.describe := by
  rw [Element.describe, Element.describe, h.attribute?, h.tag]

/-- Children of another tag are the same. -/
theorem childrenNamed (h : AlikeBut t e e') (htag : tag ≠ t) :
    e'.childrenNamed tag = e.childrenNamed tag :=
  h.filter_children fun c hc => by simp [hc, htag.symm]

theorem child? (h : AlikeBut t e e') (htag : tag ≠ t) : e'.child? tag = e.child? tag := by
  have hhead (e : Element) : e.child? tag = (e.childrenNamed tag).head? := List.head?_filter.symm
  rw [hhead, h.childrenNamed htag, ← hhead]

/-! What is read of them is the same, for each field by itself. -/

theorem readWith (h : AlikeBut t e e') (htag : tag ≠ t) (read : String → Except String α) :
    e'.readWith tag read = e.readWith tag read := by
  rw [Element.readWith, h.child? htag, h.describe, Element.readWith]

theorem readValueD [Readable α] (h : AlikeBut t e e') (htag : tag ≠ t) (default : α) :
    e'.readValueD tag default = e.readValueD tag default := by
  rw [Element.readValueD, readValue, h.readWith htag, Element.readValueD, readValue]

theorem readFlagD (h : AlikeBut t e e') (htag : tag ≠ t) (default : Bool) :
    e'.readFlagD tag default = e.readFlagD tag default := by
  rw [Element.readFlagD, h.readWith htag, Element.readFlagD]

theorem readChildD (h : AlikeBut t e e') (htag : tag ≠ t) (default : α)
    (read : Element → Reported α) :
    e'.readChildD tag default read = e.readChildD tag default read := by
  rw [Element.readChildD, h.child? htag, Element.readChildD]

theorem readName (h : AlikeBut t e e') : e'.readName = e.readName := by
  rw [Element.readName, readName.missing, h.attribute?, h.tag, Element.readName, readName.missing]

theorem readFrameName (h : AlikeBut t e e') : e'.readFrameName = e.readFrameName := by
  rw [Element.readFrameName, h.readName, h.tag, Element.readFrameName]

theorem readPlacement (h : AlikeBut t e e') (htag : "pose" ≠ t) :
    e'.readPlacement = e.readPlacement := by
  rw [Element.readPlacement, h.child? htag, h.describe, Element.readPlacement]

/-- A tag that is known raises no complaint, however often it occurs. -/
theorem checkChildren (h : AlikeBut t e e') {known : List String} (ht : t ∈ known) :
    e'.checkChildren known = e.checkChildren known := by
  rw [Element.checkChildren, h.describe, h.filter_children, Element.checkChildren]
  intro c hc
  simp [hc, ht]

theorem unknownChildren (h : AlikeBut t e e') {known : List String} (ht : t ∈ known) :
    e'.unknownChildren known = e.unknownChildren known := by
  rw [Element.unknownChildren, h.checkChildren ht, h.filter_children, Element.unknownChildren]
  intro c hc
  simp [hc, ht]

/-- Objects of another tag are read as before. -/
theorem readAll [Named α] (h : AlikeBut t e e') (htag : Named.kind α ≠ t)
    (read : Element → Reported (Option α)) : e'.readAll read = e.readAll read := by
  rw [Element.readAll, h.childrenNamed htag, Element.readAll]

end AlikeBut

end Element

end Scene
