/-
What readers report.

Readers leave it to a policy to make errors of doubtful values and unknown
elements, so none of the errors that they report themselves is of the kind that
a policy makes, and their remarks, which come with named values, are not taken
for tolerated problems.  Reports of this kind are called *honest*, and all
reports are.

A read made of steps is honest if its steps are.  Readers are taken one by one,
from fields to documents, each by the cases of its definition; there is an
induction where there is a recursion, over objects side by side, over the
trajectories of a script, and over nested models.
-/
import Scene.Proofs.Frames.Drafted
import Scene.Proofs.Reading.Model
import Scene.Reading.Document

namespace Scene

/-! ### Honest reports -/

/-- Whether an error names no cause but has words of its own, as those have
that a policy makes. -/
def Error.isOther : Error → Bool
  | .other .. => true
  | _ => false

/-- The report leaves to policies what is theirs. -/
def Report.Honest : Report → Prop
  | .error e => e.isOther = false
  | .warning _ => True
  | .unrecognized _ => True
  | .remark _ fields => fields ≠ []

/-- What is reported of a scope has a cause. -/
theorem Draft.IsReport.isOther {e : Error} (h : Draft.IsReport e) : e.isOther = false := by
  rcases h with h | ⟨name, scope, rfl⟩
  · cases h <;> rfl
  · rfl

namespace Reported

variable {α β : Type}

/-- All reports are honest. -/
def Honest (x : Reported α) : Prop := ∀ r ∈ x.reports, r.Honest

@[simp] theorem honest_pure (a : α) : (pure a : Reported α).Honest := List.forall_mem_nil _

@[simp] theorem honest_bind {x : Reported α} {f : α → Reported β} :
    (x >>= f).Honest ↔ x.Honest ∧ (f x.value).Honest := List.forall_mem_append

/-- A step, whatever comes of it, and then another one. -/
theorem Honest.bind {x : Reported α} {f : α → Reported β} (hx : x.Honest)
    (hf : ∀ a, (f a).Honest) : (x >>= f).Honest := honest_bind.mpr ⟨hx, hf _⟩

/-- A step that may give nothing to go on with. -/
theorem Honest.bindOption {x : Reported (Option α)} {f : Option α → Reported β} (hx : x.Honest)
    (hnone : (f none).Honest) (hsome : ∀ a, (f (some a)).Honest) : (x >>= f).Honest := by
  refine hx.bind fun found => ?_
  cases found with
  | none => exact hnone
  | some a => exact hsome a

@[simp] theorem honest_ite {p : Prop} [Decidable p] {x y : Reported α} :
    (if p then x else y).Honest ↔ (p → x.Honest) ∧ (¬ p → y.Honest) := by
  split
  · simp [*]
  · simp [*]

@[simp] theorem honest_map {x : Reported α} {f : α → β} : (f <$> x).Honest ↔ x.Honest := by
  rw [← bind_pure_comp, honest_bind]
  simp

/-- Steps for each of a row are honest if each of them is. -/
theorem honest_mapM {f : α → Reported β} (hf : ∀ a, (f a).Honest) (as : List α) :
    (as.mapM f).Honest := by
  induction as with
  | nil => simp
  | cons a as ih => simp [hf, ih]

@[simp] theorem honest_fail {e : Error} : (fail e).Honest ↔ e.isOther = false :=
  List.forall_mem_singleton

@[simp] theorem honest_failAll {es : Errors} :
    (failAll es).Honest ↔ ∀ e ∈ es, e.isOther = false := List.forall_mem_map

@[simp] theorem honest_warn (message : String) : (warn message).Honest :=
  List.forall_mem_singleton.mpr trivial

@[simp] theorem honest_remark {message : String} {fields : List (String × String)} :
    (report (.remark message fields)).Honest ↔ fields ≠ [] := List.forall_mem_singleton

end Reported

open Reported

/-! ### Fields -/

namespace Element

variable {α : Type} (e : Element) (tag : String)

@[simp] theorem honest_readWith (read : String → Except String α) :
    (e.readWith tag read).Honest := by
  unfold readWith
  split
  · simp
  · split
    · simp
    · simp [Error.isOther]

@[simp] theorem honest_readValue [Readable α] : (e.readValue (α := α) tag).Honest :=
  e.honest_readWith tag Readable.read

@[simp] theorem honest_readValueD [Readable α] (default : α) :
    (e.readValueD tag default).Honest := by
  simp [readValueD]

@[simp] theorem honest_requireValue [Readable α] : (e.requireValue (α := α) tag).Honest := by
  simp [requireValue, Error.isOther]

@[simp] theorem honest_readFlagD (default : Bool) : (e.readFlagD tag default).Honest := by
  simp [readFlagD]

@[simp] theorem honest_requireText : (e.requireText tag).Honest := by
  have hmissing : (requireText.missing e tag).Honest := by simp [requireText.missing, Error.isOther]
  unfold requireText
  split
  · simp [hmissing]
  · exact hmissing

/-- A child that is read honestly is read honestly where it may be absent. -/
theorem honest_readChildD {default : α} {read : Element → Reported α}
    (hread : ∀ c, (read c).Honest) : (e.readChildD tag default read).Honest := by
  unfold readChildD
  split
  · simp
  · exact hread _

@[simp] theorem honest_readShareD (default : Float) : (e.readShareD tag default).Honest := by
  refine Honest.bindOption (by simp) (by simp) fun x => ?_
  simp

@[simp] theorem honest_readName : e.readName.Honest := by
  have hmissing : (readName.missing e).Honest := by simp [readName.missing, Error.isOther]
  unfold readName
  split
  · simp [hmissing]
  · exact hmissing

@[simp] theorem honest_readFrameName : e.readFrameName.Honest := by
  refine Honest.bindOption (by simp) (by simp) fun name => ?_
  simp [Error.isOther]

@[simp] theorem honest_readPlacement : e.readPlacement.Honest := by
  unfold readPlacement
  split
  · simp
  · dsimp only
    split
    · simp
    · split
      · simp
      · simp [Error.isOther]

@[simp] theorem honest_checkChildren (known : List String) : (e.checkChildren known).Honest :=
  List.forall_mem_map.mpr fun _ _ => trivial

@[simp] theorem honest_unknownChildren (known : List String) :
    (e.unknownChildren known).Honest := by
  simp [unknownChildren]

/-- Objects side by side: besides what was reported of each, only a name that is
taken is reported. -/
theorem honest_keepUnique [Named α] (kept : List α) {reads : List (Reported (Option α))}
    (hreads : ∀ r ∈ reads, r.Honest) : (keepUnique kept reads).Honest := by
  induction reads generalizing kept with
  | nil => simp [keepUnique]
  | cons r reads ih =>
    obtain ⟨hr, hreads⟩ := List.forall_mem_cons.mp hreads
    refine hr.bindOption (ih kept hreads) fun x => ?_
    simp [Error.isOther, ih _ hreads]

/-- Objects side by side are read honestly if each of them is. -/
theorem honest_readAll [Named α] {read : Element → Reported (Option α)}
    (hread : ∀ c, (read c).Honest) : (e.readAll read).Honest :=
  honest_keepUnique [] (List.forall_mem_map.mpr fun c _ => hread c)

end Element

open Element

/-! ### Links -/

namespace Geometry

variable (e shape : Element)

@[simp] theorem honest_checkPositive (field : String) (value : Float) :
    (checkPositive shape field value).Honest := by
  simp [checkPositive]

@[simp] theorem honest_readLength (field : String) (default : Float) :
    (readLength shape field default).Honest := by
  refine Honest.bindOption (by simp) (by simp) fun value => ?_
  simp

@[simp] theorem honest_readLengths (field : String) (default : Vec3 Float) :
    (readLengths shape field default).Honest := by
  refine Honest.bindOption (by simp) (by simp) fun value => ?_
  simp

@[simp] theorem honest_readPlane : (readPlane e shape).Honest := by
  refine Honest.bindOption (by simp) (by simp) fun normal => ?_
  simp

@[simp] theorem honest_readMesh : (readMesh shape).Honest := by
  simp [readMesh]

@[simp] theorem honest_readShape : (readShape e shape).Honest := by
  unfold readShape
  split
  all_goals simp

@[simp] theorem honest_ofElement : (ofElement e).Honest := by
  refine Honest.bind (by simp) fun _ => ?_
  split
  · simp
  · simp
  · simp

end Geometry

@[simp] theorem Collision.honest_ofElement (e : Element) : (ofElement e).Honest := by
  refine Honest.bindOption (by simp) (by simp) fun name => ?_
  dsimp only
  split
  · simp [Error.isOther]
  · simp

@[simp] theorem Material.honest_ofElement (e : Element) : (ofElement e).Honest := by
  simp [ofElement]

@[simp] theorem Visual.honest_ofElement (e : Element) : (ofElement e).Honest := by
  refine Honest.bindOption (by simp) (by simp) fun name => ?_
  dsimp only
  split
  · simp [Error.isOther]
  · simp [honest_readChildD]

namespace Light

variable (e : Element)

@[simp] theorem honest_readType : (readType e).Honest := by
  unfold readType
  split
  · simp [Error.isOther]
  · split
    · simp
    · simp [Error.isOther]

@[simp] theorem honest_readAttenuation : (readAttenuation e).Honest := by
  unfold readAttenuation
  dsimp only
  split
  · simp
  · simp

@[simp] theorem honest_readSpot : (readSpot e).Honest := by
  unfold readSpot
  dsimp only
  split
  · simp
  · simp

@[simp] theorem honest_ofElement : (ofElement e).Honest := by
  refine Honest.bindOption (by simp) (by simp) fun name => ?_
  simp

end Light

namespace Inertial

variable (e : Element) (link : String)

@[simp] theorem honest_check (i : Inertial) : (i.check link).Honest := by
  simp [check, Error.isOther]

@[simp] theorem honest_readInertia : (readInertia e).Honest := by
  unfold readInertia
  dsimp only
  split
  · simp
  · simp

@[simp] theorem honest_ofElement : (ofElement link e).Honest := by
  simp [ofElement]

end Inertial

@[simp] theorem Link.honest_ofElement (e : Element) : (ofElement e).Honest := by
  refine Honest.bindOption (by simp) (by simp) fun name => ?_
  simp [honest_readChildD, honest_readAll]

/-! ### Joints -/

namespace Axis

variable (e : Element) (a : Axis Float)

/-- A direction without a length has an error of its own. -/
@[simp] theorem honest_readXyz : (readXyz e a).Honest := by
  refine Honest.bind (by simp) fun xyz => ?_
  cases xyz with
  | none =>
    dsimp only
    split
    · simp
    · simp
  | some xyz =>
    refine Honest.bind (by simp [Error.isOther]) fun _ => ?_
    split
    · simp
    · simp

@[simp] theorem honest_readDynamics : (readDynamics e a).Honest := by
  unfold readDynamics
  split
  · simp
  · simp

@[simp] theorem honest_readLimit : (readLimit e a).Honest := by
  unfold readLimit
  split
  · simp
  · simp

@[simp] theorem honest_ofElement : (ofElement e).Honest := by
  simp [ofElement]

end Axis

namespace Joint

variable (e : Element)

@[simp] theorem honest_readType : (readType e).Honest := by
  unfold readType
  split
  · simp [Error.isOther]
  · split
    · simp
    · simp [Error.isOther]

@[simp] theorem honest_ofNamed (name : String) (type : JointType) :
    (ofNamed e name type).Honest := by
  refine Honest.bind (by simp) fun parent => ?_
  refine Honest.bind (by simp) fun child => ?_
  -- without a parent or a child nothing more is reported
  cases parent with
  | none => simp
  | some parent =>
    cases child with
    | none => simp
    | some child => simp [honest_readChildD]

@[simp] theorem honest_ofElement : (ofElement e).Honest := by
  refine Honest.bindOption (by simp) (by simp) fun name => ?_
  exact Honest.bindOption (by simp) (by simp) fun type => by simp

end Joint

/-! ### Actors -/

@[simp] theorem Animation.honest_ofElement (e : Element) : (ofElement e).Honest := by
  refine Honest.bindOption (by simp) (by simp) fun name => ?_
  refine Honest.bind (by simp) fun _ => ?_
  split
  · simp [Error.isOther]
  · simp

namespace Trajectory

variable (e : Element)

@[simp] theorem honest_readWaypoints : (readWaypoints e).Honest := by
  refine Honest.bind (honest_mapM (fun c => ?_) _) fun _ => ?_
  · simp [readWaypoint]
  · simp

@[simp] theorem honest_readId : (readId e).Honest := by
  unfold readId
  split
  · simp [Error.isOther]
  · split
    · simp
    · simp [Error.isOther]

/-- A trajectory, with a step for each waypoint. -/
@[simp] theorem honest_ofElement (id : UInt64) : (ofElement e id).Honest := by
  simp [ofElement]

end Trajectory

namespace Script

/-- Trajectories side by side are read like other objects. -/
@[simp] theorem honest_readTrajectories (kept : List Trajectory) (es : List Element) :
    (readTrajectories kept es).Honest := by
  induction es generalizing kept with
  | nil => simp [readTrajectories]
  | cons e es ih =>
    refine Honest.bindOption (by simp) (ih kept) fun id => ?_
    simp [Error.isOther, ih]

@[simp] theorem honest_ofElement (e : Element) : (ofElement e).Honest := by
  simp [ofElement]

end Script

@[simp] theorem Skin.honest_ofElement (e : Element) : (ofElement e).Honest := by
  unfold ofElement
  split
  · simp [Error.isOther]
  · simp

@[simp] theorem Actor.honest_ofElement (e : Element) : (ofElement e).Honest := by
  refine Honest.bindOption (by simp) (by simp) fun name => ?_
  simp [honest_readChildD, honest_readAll]

/-! ### Models -/

@[simp] theorem Frame.honest_ofElement (e : Element) : (ofElement e).Honest := by
  refine Honest.bindOption (by simp) (by simp) fun name => ?_
  simp

namespace Model

/-- A model around its nested ones, which were read before. -/
theorem honest_assemble (e : Element) {nested : List (Reported (Option Model))}
    (hnested : ∀ r ∈ nested, r.Honest) : (assemble e nested).Honest := by
  -- the errors of a graph are reports about its scope, and name their causes
  have hscope (m : Model) : (failAll m.rebuildScope.2).Honest :=
    honest_failAll.mpr fun err herr => (m.isReport_of_mem_draft err herr).isOther
  refine Honest.bindOption (by simp) (by simp) fun name => ?_
  simp [honest_readAll, honest_keepUnique [] hnested, hscope, Error.isOther]

@[simp] theorem honest_ofElement (e : Element) : (ofElement e).Honest := by
  induction e using induction_children with
  | h e ih =>
    rw [ofElement_eq]
    refine honest_assemble e (List.forall_mem_map.mpr fun c hc => ?_)
    exact ih c (mem_childrenNamed_iff.mp hc).1

end Model

/-! ### Documents -/

@[simp] theorem World.honest_ofElement (e : Element) : (ofElement e).Honest := by
  have hscope (w : World) : (failAll w.rebuildScope.2).Honest :=
    honest_failAll.mpr fun err herr => (w.isReport_of_mem_draft err herr).isOther
  refine Honest.bindOption (by simp) (by simp) fun name => ?_
  simp [honest_readAll, hscope]

namespace Document

variable (e : Element)

@[simp] theorem honest_readVersion : (readVersion e).Honest := by
  unfold readVersion
  split
  · simp [Error.isOther]
  · simp

@[simp] theorem honest_chooseContent (worlds : List World) (found : List Standalone) :
    (chooseContent worlds found).Honest := by
  simp [chooseContent, Error.isOther]

/-- **Whatever is read, the reports are honest.** -/
theorem honest_ofElement : (ofElement e).Honest := by
  simp [ofElement, honest_readAll, Error.isOther]

end Document

end Scene
