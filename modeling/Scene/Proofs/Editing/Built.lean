/-
Models that are built, written and read back.

A model need not come from a document to survive writing.  Take a new one, with
settings of its own, and add children to it and clear them again, in any order;
some of this may be refused, and there may be errors on the way.  No edit
touches the settings, which is what `emptied` says.  And whenever an edit goes
without errors, the graph is the one that the children give, with nothing wrong
with it; for an edit that is not refused drafts the graph anew.  So after such
an edit the model is read back as an equal one, if its children are.

Main statement: `reread_of_edits`.
-/
import Scene.Proofs.Editing.Model
import Scene.Proofs.Writing.Model

namespace Scene.Model

open Reported

variable {policy : Policy} {m k : Model}

/-! ### What no edit touches -/

/-- A model without its children. -/
def emptied (m : Model) : Model :=
  { m with links := [], joints := [], frames := [], models := [], graph := .model "" }

theorem emptied_put (m : Model) (c : Child) : (m.put c).emptied = m.emptied := by
  cases c <;> rfl

theorem emptied_edit (m : Model) (e : Edit) : (m.edit e).1.emptied = m.emptied := by
  cases e with
  | add c =>
    rw [edit, add_eq]
    split
    · rfl
    · exact m.emptied_put c
  | clearLinks => rfl
  | clearJoints => rfl
  | clearFrames => rfl
  | clearModels => rfl

theorem emptied_editAll (m : Model) (edits : List Edit) :
    (m.editAll edits).emptied = m.emptied := by
  induction edits generalizing m with
  | nil => rfl
  | cons e edits ih => exact (ih (m.edit e).1).trans (m.emptied_edit e)

/-! ### An edit without errors -/

/-- After an edit without errors the graph is drafted, and nothing is wrong with
it. -/
theorem drafted_of_edit {e : Edit} (h : m.edit e = (k, [])) :
    k.draft.errors = [] ∧ k.graph = k.draft.graph := by
  -- every edit that is not refused ends in such a draft
  have hrebuilt {n : Model} (hn : n.rebuildScope = (k, [])) :
      k.draft.errors = [] ∧ k.graph = k.draft.graph := by
    obtain ⟨rfl, herrors⟩ := Prod.mk.inj hn
    exact ⟨herrors, rfl⟩
  cases e with
  | add c =>
    rw [edit, add_eq] at h
    split at h
    -- a refused addition is an error, and there was none
    · cases (Prod.mk.inj h).2
    · exact hrebuilt h
  | clearLinks => exact hrebuilt h
  | clearJoints => exact hrebuilt h
  | clearFrames => exact hrebuilt h
  | clearModels => exact hrebuilt h

/-- **A model that was built survives writing.**  Whatever is set of a new model
and whatever is added to it and cleared again, if the last edit goes without
errors and the model has the bodies it needs then it is read back without errors
as an equal one, graph included, provided that its own pose and each of its
children are. -/
theorem reread_of_edits {name canonicalLink : String} {placement : Placement}
    {isStatic selfCollide : Bool} {edits : List Edit} {e : Edit}
    (h : (editAll { name, placement, isStatic, selfCollide, canonicalLink } edits).edit e = (m, []))
    (hname : IsFrameName name) (hplace : placement.ReadsBack)
    (hbodies : isStatic = true ∨ m.links ≠ [] ∨ m.models ≠ [])
    (hback : m.ChildrenReadBack policy) :
    ∃ k, (ofElement m.toElement).Gives policy (some k) ∧ (m == k) = true := by
  obtain ⟨herrors, hgraph⟩ := drafted_of_edit h
  have hlast : ((editAll { name, placement, isStatic, selfCollide, canonicalLink } edits).edit
      e).1 = m := congrArg Prod.fst h
  -- the settings are still those of the new model
  have hsettings : m.emptied = { name, placement, isStatic, selfCollide, canonicalLink } := by
    rw [← hlast, emptied_edit, emptied_editAll]
    rfl
  have hname' : m.name = name := congrArg Model.name hsettings
  have hplacement : m.placement = placement := congrArg Model.placement hsettings
  have hstatic : m.isStatic = isStatic := congrArg Model.isStatic hsettings
  have hunknown : m.unknown = [] := congrArg Model.unknown hsettings
  refine exists_ofElement_of_children (hname'.symm ▸ hname) (hplacement.symm ▸ hplace)
    (hstatic.symm ▸ hbodies) herrors hgraph ?_ hback
  rw [hunknown]
  exact ⟨List.forall_mem_nil _, List.forall_mem_nil _, List.forall_mem_nil _⟩

/-- Edits that build an arm around a joint: the joint comes first, when there is
nothing to join, and a frame under the name of the joint is refused. -/
def armEdits : List Edit :=
  [.add (.joint { name := "wrist", type := .fixed, parent := "base", child := "hand" }),
    .add (.link { name := "base" }), .add (.frame { name := "wrist" })]

/-- The arm, with the hand added last. -/
def builtArm : Model × Errors :=
  (editAll { name := "arm", canonicalLink := "hand" } armEdits).edit (.add (.link { name := "hand" }))

theorem childrenReadBack_builtArm : builtArm.1.ChildrenReadBack .standard where
  links := by
    refine List.forall_mem_cons.mpr ⟨⟨_, ⟨rfl, rfl⟩, ?_⟩,
      List.forall_mem_singleton.mpr ⟨_, ⟨rfl, rfl⟩, ?_⟩⟩
    · decide +kernel
    · decide +kernel
  joints := List.forall_mem_singleton.mpr ⟨_, ⟨rfl, rfl⟩, by decide +kernel⟩
  frames := List.forall_mem_nil _
  models := List.forall_mem_nil _

theorem reread_builtArm : builtArm.2 = [] ∧ builtArm.1.ChildrenReadBack .standard ∧
    ∃ k, (ofElement builtArm.1.toElement).Gives .standard (some k) ∧
      (builtArm.1 == k) = true := by
  have herrors : builtArm.2 = [] := List.isEmpty_iff.mp (by decide +kernel)
  have hback := childrenReadBack_builtArm
  refine ⟨herrors, hback, ?_⟩
  exact reread_of_edits (Prod.ext rfl herrors) ⟨by decide, by decide⟩
    (fun h => absurd h (by decide +kernel)) (.inr (.inl (List.cons_ne_nil _ _))) hback

end Scene.Model
