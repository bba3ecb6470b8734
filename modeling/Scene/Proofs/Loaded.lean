/-
What a document is like that was loaded without errors.

Loading reports whatever readers and checks report, at every depth.  So a
document that was loaded without errors passed all checks: its worlds, and its
models wherever they stand, have graphs in which every frame is found, has a
pose and has a body.

Main statement: `resolves_of_load`.
-/
import Scene.Proofs.Frames.Answers
import Scene.Proofs.Markup.RoundTrip
import Scene.Proofs.Reading.Document

namespace Scene

open Reported

variable {policy : Policy}

namespace Document

/-- The models of a document: in its worlds, alone, or in other models. -/
inductive Holds (d : Document) : Model → Prop
  | inWorld {w : World} {m : Model} : w ∈ d.worlds → m ∈ w.models → d.Holds m
  | alone {m : Model} : d.content = some (.model m) → d.Holds m
  | nested {m k : Model} : d.Holds m → k ∈ m.models → d.Holds k

/-- A text that loads without errors is markup, and its tree is read without
errors. -/
theorem gives_of_load {before : Document} {text : String}
    (h : (load before policy text).errors = []) :
    ∃ root, (Markup.readDocument text).value = .ok root ∧ root.Tidy ∧
      (ofElement root).Gives policy (load before policy text).document := by
  unfold load at h ⊢
  dsimp only at h ⊢
  split at h
  -- a text that is no markup is an error
  · cases h
  · next root hroot =>
    rw [hroot]
    exact ⟨root, rfl, Markup.tidy_of_readDocument hroot, gives_of_errors_eq_nil h⟩

theorem valid_of_load {before : Document} {text : String}
    (h : (load before policy text).errors = []) :
    (load before policy text).document.Valid policy := by
  obtain ⟨root, -, htidy, hgives⟩ := gives_of_load h
  exact (valid_of_gives htidy hgives).2

/-- The text of a tree loads as the tree is read. -/
theorem load_toDocument {before : Document} {e : Element} (he : e.Proper) {d : Document}
    (h : (ofElement e).Gives policy d) :
    (load before policy e.toDocument).errors = [] ∧
      (load before policy e.toDocument).document = d := by
  have hread := Element.readDocument_toDocument he.named he.tidy
  unfold load
  simp only [hread]
  exact ⟨h.1, h.2⟩

/-- Models of a valid document are valid at every depth. -/
theorem Valid.holds {d : Document} (h : d.Valid policy) {m : Model} (hm : d.Holds m) :
    m.Valid policy := by
  induction hm with
  | inWorld hw hm => exact (h.worlds _ hw).models _ hm
  | alone hm => exact h.content _ hm
  | nested _ hk ih => exact ih.nested hk

/-- **What loads without errors resolves.**  In every world and in every model,
at any depth, each child is found under its name, each frame has a pose in each
other one and a body, each axis has a direction, and each collision, visual and
light has a pose unless it is expressed in a frame from elsewhere. -/
theorem resolves_of_load {before : Document} {text : String}
    (h : (load before policy text).errors = []) :
    (∀ w ∈ (load before policy text).document.worlds, w.Resolves) ∧
    ∀ m, (load before policy text).document.Holds m → m.Resolves := by
  have hvalid := valid_of_load h
  refine ⟨fun w hw => World.resolves_of_valid (hvalid.worlds w hw), ?_⟩
  intro m hm
  exact Model.resolves_of_checked (hvalid.holds hm).checked

/-- Two links with a joint between them, in a model that stands alone. -/
def armElement : Element :=
  { tag := "sdf", attributes := [("version", "1.9")], children := [
    { tag := "model", attributes := [("name", "arm")], children := [
      { tag := "link", attributes := [("name", "base")] },
      { tag := "link", attributes := [("name", "hand")] },
      { tag := "joint", attributes := [("name", "wrist"), ("type", "screw")], children := [
        { tag := "parent", text := some "base" }, { tag := "child", text := some "hand" },
        { tag := "axis" }] }] }] }

/-- The model that is read of it. -/
def armModel : Model :=
  (Model.rebuildScope
    { name := "arm", links := [{ name := "base" }, { name := "hand" }]
      joints := [{ name := "wrist", type := .screw, parent := "base", child := "hand"
                   axis := some { Axis.standard with owner := "wrist" } }] }).1

/-- The document that holds the arm and nothing else. -/
def armDocument : Document := { version := "1.9", content := some (.model armModel) }

theorem proper_armElement : armElement.Proper := by
  have hchild {tag text : String} (htag : Markup.IsName tag) (htext : Text.IsTidy text) :
      Element.Proper { tag, text := some text } :=
    Element.proper_text htag (by simp) (by simp) htext
  apply Element.proper_children (by decide) (by decide) (by decide) rfl
  refine List.forall_mem_singleton.mpr ?_
  apply Element.proper_children (by decide) (by decide) (by decide) rfl
  simp only [List.forall_mem_cons, List.not_mem_nil, false_implies, implies_true, and_true]
  refine ⟨Element.proper_children (by decide) (by decide) (by decide) rfl (by simp),
    Element.proper_children (by decide) (by decide) (by decide) rfl (by simp),
    Element.proper_children (by decide) (by decide) (by decide) rfl ?_⟩
  simp only [List.forall_mem_cons, List.not_mem_nil, false_implies, implies_true, and_true]
  exact ⟨hchild (by decide) ⟨by decide, by decide⟩, hchild (by decide) ⟨by decide, by decide⟩,
    Element.proper_children (by decide) (by decide) (by decide) rfl (by simp)⟩

theorem load_armElement :
    (load .empty .standard armElement.toDocument).errors = [] ∧
      (load .empty .standard armElement.toDocument).document = armDocument := by
  have hgives : (ofElement armElement).Gives .standard armDocument :=
    ⟨List.isEmpty_iff.mp (by decide +kernel), rfl⟩
  exact load_toDocument proper_armElement hgives

theorem resolves_of_load_arm :
    (load .empty .standard armElement.toDocument).errors = [] ∧
      (load .empty .standard armElement.toDocument).document.Holds armModel ∧
      armModel.Resolves := by
  obtain ⟨herrors, hdocument⟩ := load_armElement
  have hholds : (load .empty .standard armElement.toDocument).document.Holds armModel :=
    .alone (by rw [hdocument]; rfl)
  exact ⟨herrors, hholds, (resolves_of_load herrors).2 armModel hholds⟩

end Document

end Scene
