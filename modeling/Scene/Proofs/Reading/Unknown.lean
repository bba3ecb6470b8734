/-
What is reported of children of unknown tags.

Documents, worlds, models and links keep the children that mean nothing to them.
Two passes over the children are made for this, one that reports and one that
keeps; the first leaves out the foreign ones.  All else that such an object is
read from either says nothing of unknown tags, or is a child that is an object
itself.  So the reports about unknown tags are those about the own children, and
then those that reading the parts makes, kind by kind.

Whether a part is kept makes no difference: it has been read before its name is
looked at.

Main statements: `unrecognized_ofElement`, for each of the four.
-/
import Scene.Proofs.Reading.Locality

namespace Scene

variable {α β : Type} {policy : Policy}

/-! ### Reports about unknown tags -/

/-- Whether a report is about an element of an unknown tag. -/
def Report.isUnrecognized : Report → Bool
  | .unrecognized _ => true
  | _ => false

namespace Reported

/-- What a policy makes of the elements of unknown tags that were met, in the order
in which they were. -/
def unrecognized (policy : Policy) (x : Reported α) : List (Error ⊕ LogEvent) :=
  (x.reports.filter Report.isUnrecognized).map (Report.settle policy)

@[simp] theorem unrecognized_pure (a : α) : (pure a : Reported α).unrecognized policy = [] := rfl

/-- Steps report unknown tags one after the other. -/
@[simp] theorem unrecognized_bind (x : Reported α) (f : α → Reported β) :
    (x >>= f).unrecognized policy = x.unrecognized policy ++ (f x.value).unrecognized policy := by
  have hreports : (x >>= f).reports = x.reports ++ (f x.value).reports := rfl
  rw [unrecognized, hreports, List.filter_append, List.map_append]
  rfl

@[simp] theorem unrecognized_map (x : Reported α) (f : α → β) :
    (f <$> x).unrecognized policy = x.unrecognized policy := by
  rw [← bind_pure_comp, unrecognized_bind, unrecognized_pure, List.append_nil]

@[simp] theorem unrecognized_ite {p : Prop} [Decidable p] (x y : Reported α) :
    (if p then x else y).unrecognized policy =
      if p then x.unrecognized policy else y.unrecognized policy := by
  split
  · rfl
  · rfl

@[simp] theorem unrecognized_fail (e : Error) : (fail e).unrecognized policy = [] := rfl

@[simp] theorem unrecognized_warn (message : String) : (warn message).unrecognized policy = [] :=
  rfl

@[simp] theorem unrecognized_remark (message : String) (fields : List (String × String)) :
    (report (.remark message fields)).unrecognized policy = [] := rfl

@[simp] theorem unrecognized_failAll (es : Errors) : (failAll es).unrecognized policy = [] := by
  have hreports : (es.map Report.error).filter Report.isUnrecognized = [] :=
    List.filter_eq_nil_iff.mpr (List.forall_mem_map.mpr fun _ _ => Bool.false_ne_true)
  rw [failAll, unrecognized, hreports, List.map_nil]

/-- A step that says nothing of unknown tags, and that may give nothing to go on
with. -/
theorem exists_unrecognized_bind {x : Reported (Option α)} {f : Option α → Reported (Option β)}
    {b : β} (hx : x.unrecognized policy = []) (hnone : (f none).value = none)
    (h : (x >>= f).value = some b) :
    ∃ a, x.value = some a ∧
      (x >>= f).unrecognized policy = (f (some a)).unrecognized policy := by
  obtain ⟨a, ha, -⟩ := exists_of_value_bind hnone h
  refine ⟨a, ha, ?_⟩
  rw [unrecognized_bind, hx, ha, List.nil_append]

end Reported

open Reported

/-! ### Fields -/

namespace Element

variable (e : Element) (tag : String)

@[simp] theorem unrecognized_readWith (read : String → Except String α) :
    (e.readWith tag read).unrecognized policy = [] := by
  unfold readWith
  split
  · rfl
  · split
    · rfl
    · rfl

@[simp] theorem unrecognized_readValueD [Readable α] (default : α) :
    (e.readValueD tag default).unrecognized policy = [] := by
  simp [readValueD, readValue]

@[simp] theorem unrecognized_readFlagD (default : Bool) :
    (e.readFlagD tag default).unrecognized policy = [] := by
  simp [readFlagD]

/-- A child without unknown tags reports none where it may be absent. -/
theorem unrecognized_readChildD {default : α} {read : Element → Reported α}
    (hread : ∀ c, (read c).unrecognized policy = []) :
    (e.readChildD tag default read).unrecognized policy = [] := by
  unfold readChildD
  split
  · rfl
  · exact hread _

@[simp] theorem unrecognized_readName : e.readName.unrecognized policy = [] := by
  unfold readName
  split
  · split
    · rfl
    · rfl
  · rfl

@[simp] theorem unrecognized_readFrameName : e.readFrameName.unrecognized policy = [] := by
  rw [readFrameName, unrecognized_bind, unrecognized_readName, List.nil_append]
  split
  · rfl
  · split
    · rfl
    · rfl

@[simp] theorem unrecognized_readPlacement : e.readPlacement.unrecognized policy = [] := by
  unfold readPlacement
  split
  · rfl
  · dsimp only
    split
    · rfl
    · split
      · rfl
      · rfl

/-! ### Children -/

/-- The children whose tags are none of `known`. -/
def unknownOf (known : List String) : List Element :=
  e.children.filter fun c => !known.contains c.tag

/-- What a policy makes of the children whose tags are none of `known`. -/
def notices (policy : Policy) (known : List String) : List (Error ⊕ LogEvent) :=
  ((e.unknownOf known).filter fun c => !isForeign c).map fun c =>
    Report.enforce policy.unrecognized .elementIncorrectType
      s!"unrecognized element <{c.tag}> in {e.describe}"

/-- Children of unknown tags are what is reported here. -/
@[simp] theorem unrecognized_unknownChildren (known : List String) :
    (e.unknownChildren known).unrecognized policy = e.notices policy known := by
  -- the two conditions on a child are asked in one pass, and in two
  have hfilter : (e.unknownOf known).filter (fun c => !isForeign c) =
      e.children.filter fun c => !(isForeign c || known.contains c.tag) := by
    rw [unknownOf, List.filter_filter]
    simp only [Bool.not_or]
  rw [unknownChildren, unrecognized_bind, unrecognized_pure, List.append_nil, checkChildren,
    unrecognized, notices, hfilter]
  simp only [List.filter_map, Function.comp_def, Report.isUnrecognized, List.filter_true,
    List.map_map, Report.settle]

/-- Of objects side by side, what is reported of each is reported of all, whether
or not they are kept. -/
theorem unrecognized_keepUnique [Named α] (kept : List α) (rs : List (Reported (Option α))) :
    (keepUnique kept rs).unrecognized policy = rs.flatMap (unrecognized policy) := by
  induction rs generalizing kept with
  | nil => rfl
  | cons r rs ih =>
    rw [keepUnique, unrecognized_bind, List.flatMap_cons]
    congr 1
    split
    · exact ih kept
    -- that a name is taken is reported, too, but not of a tag
    · simp [ih]

/-- Objects side by side report one after the other. -/
theorem unrecognized_readAll [Named α] (read : Element → Reported (Option α)) :
    (e.readAll read).unrecognized policy =
      (e.childrenNamed (Named.kind α)).flatMap fun c => (read c).unrecognized policy := by
  rw [readAll, unrecognized_keepUnique, List.flatMap_map]

end Element

open Element

/-- What a policy makes of unknown tags in the parts that a holder is read from. -/
def Holder.notices (policy : Policy) (holder : Holder) (e : Element) : List (Error ⊕ LogEvent) :=
  holder.parts.flatMap fun part =>
    (e.childrenNamed part.tag).flatMap fun c => (part.read c).unrecognized policy

/-! ### Objects that keep unknown children -/

variable {e : Element}

theorem Inertial.unrecognized_ofElement (link : String) (e : Element) :
    (ofElement link e).unrecognized policy = [] := by
  have hinertia : (readInertia e).unrecognized policy = [] := by
    unfold readInertia
    dsimp only
    split
    · rfl
    · simp
  simp [ofElement, check, hinertia]

namespace Link

theorem unknown_of_ofElement {l : Link} (h : (ofElement e).value = some l) :
    l.unknown = e.unknownOf knownTags := by
  obtain ⟨name, -, h⟩ := exists_of_value_bind rfl h
  obtain rfl := Option.some.inj h
  rfl

theorem unrecognized_ofElement {l : Link} (h : (ofElement e).value = some l) :
    (ofElement e).unrecognized policy =
      e.notices policy knownTags ++ (Holder.object .link).notices policy e := by
  have hinertial (name : String) :
      (e.readChildD "inertial" none fun i => some <$> Inertial.ofElement name i).unrecognized
        policy = [] :=
    e.unrecognized_readChildD _ fun c => by simp [Inertial.unrecognized_ofElement]
  obtain ⟨name, -, heq⟩ := exists_unrecognized_bind e.unrecognized_readFrameName rfl h
  refine heq.trans ?_
  simp only [unrecognized_bind, unrecognized_pure, unrecognized_readPlacement,
    unrecognized_unknownChildren, hinertial, unrecognized_readAll, List.nil_append, List.append_nil]
  -- what is left are the rows of parts, in the order in which they are read
  simp only [Holder.notices, Holder.parts, List.flatMap_cons, List.flatMap_nil, List.append_nil]
  rfl

end Link

namespace Model

theorem unknown_of_ofElement {m : Model} (h : (ofElement e).value = some m) :
    m.unknown = e.unknownOf knownTags := by
  obtain ⟨_, -, rfl⟩ := exists_of_ofElement h
  rfl

theorem unrecognized_ofElement {m : Model} (h : (ofElement e).value = some m) :
    (ofElement e).unrecognized policy =
      e.notices policy knownTags ++ (Holder.object .model).notices policy e := by
  rw [ofElement_eq] at h ⊢
  obtain ⟨name, -, heq⟩ := exists_unrecognized_bind e.unrecognized_readFrameName rfl h
  refine heq.trans ?_
  simp only [unrecognized_bind, unrecognized_pure, unrecognized_ite, unrecognized_readPlacement,
    unrecognized_unknownChildren, unrecognized_readFlagD, unrecognized_readAll,
    unrecognized_keepUnique, unrecognized_fail, unrecognized_failAll, List.flatMap_map,
    List.nil_append, List.append_nil, ite_self]
  simp only [Holder.notices, Holder.parts, List.flatMap_cons, List.flatMap_nil, List.append_nil]
  rfl

end Model

namespace World

theorem unknown_of_ofElement {w : World} (h : (ofElement e).value = some w) :
    w.unknown = e.unknownOf knownTags := by
  obtain ⟨name, -, h⟩ := exists_of_value_bind rfl h
  obtain rfl := Option.some.inj h
  rfl

theorem unrecognized_ofElement {w : World} (h : (ofElement e).value = some w) :
    (ofElement e).unrecognized policy =
      e.notices policy knownTags ++ (Holder.object .world).notices policy e := by
  obtain ⟨name, -, heq⟩ := exists_unrecognized_bind e.unrecognized_readName rfl h
  refine heq.trans ?_
  simp only [unrecognized_bind, unrecognized_pure, unrecognized_unknownChildren,
    unrecognized_readValueD, unrecognized_readAll, unrecognized_failAll, List.nil_append,
    List.append_nil]
  simp only [Holder.notices, Holder.parts, List.flatMap_cons, List.flatMap_nil, List.append_nil]
  rfl

end World

namespace Document

theorem unknown_ofElement (h : e.tag = tag) :
    (ofElement e).value.unknown = e.unknownOf knownTags := by
  rw [ofElement, if_neg (not_not.mpr h)]
  rfl

theorem unrecognized_ofElement (h : e.tag = tag) :
    (ofElement e).unrecognized policy =
      e.notices policy knownTags ++ Holder.document.notices policy e := by
  have hversion : (readVersion e).unrecognized policy = [] := by
    unfold readVersion
    split
    · rfl
    · simp
  have hcontent (worlds : List World) (found : List Standalone) :
      (chooseContent worlds found).unrecognized policy = [] := by
    simp [chooseContent]
  rw [ofElement, if_neg (not_not.mpr h)]
  simp only [unrecognized_bind, unrecognized_pure, hversion, unrecognized_unknownChildren,
    unrecognized_readAll, hcontent, List.nil_append, List.append_nil]
  simp only [Holder.notices, Holder.parts, List.flatMap_cons, List.flatMap_nil, List.append_nil]
  rfl

end Document

end Scene
