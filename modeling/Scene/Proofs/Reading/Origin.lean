/-
Where the objects in a document come from.

Reading drops objects but never makes any up: a world, a model or an actor in a
document that was read is the value of reading some element, at whatever depth it
stands, and whatever was wrong around it.  So what is known of everything that a
reader gives holds of all such objects in the document.

Main statements: `exists_read_of_holds` and `exists_read_of_holdsActor`.
-/
import Scene.Proofs.Loaded
import Scene.Proofs.Markup.Reproduced
import Scene.Proofs.Tolerated

namespace Scene

open Element Reported

variable {e : Element}

/-- What is kept of a row was read from one of the children. -/
theorem Element.exists_read_of_mem {α : Type} [Named α] {read : Element → Reported (Option α)}
    {x : α} (h : x ∈ (e.readAll read).value) : ∃ c ∈ e.children, (read c).value = some x := by
  -- a row only drops members, so each one that it keeps was read
  have hall : ∀ y ∈ (e.readAll read).value, ∃ c ∈ e.children, (read c).value = some y :=
    forall_mem_readAll fun c hc _ hy => ⟨c, hc, hy⟩
  exact hall x h

/-- A model in a model was read itself. -/
theorem Model.exists_read_of_nested {m k : Model} (h : (ofElement e).value = some m)
    (hk : k ∈ m.models) : ∃ c ∈ e.children, (ofElement c).value = some k := by
  obtain ⟨_, -, rfl⟩ := exists_of_ofElement h
  exact exists_read_of_mem hk

/-- The models of a world that was read were read. -/
theorem World.exists_read_of_model {w : World} {m : Model} (h : (ofElement e).value = some w)
    (hm : m ∈ w.models) : ∃ c, (Model.ofElement c).value = some m := by
  obtain ⟨name, -, h⟩ := exists_of_value_bind rfl h
  obtain rfl := Option.some.inj h
  obtain ⟨c, -, hc⟩ := exists_read_of_mem hm
  exact ⟨c, hc⟩

/-- The actors of a world that was read were read. -/
theorem World.exists_read_of_actor {w : World} {a : Actor} (h : (ofElement e).value = some w)
    (ha : a ∈ w.actors) : ∃ c, (Actor.ofElement c).value = some a := by
  obtain ⟨name, -, h⟩ := exists_of_value_bind rfl h
  obtain rfl := Option.some.inj h
  obtain ⟨c, -, hc⟩ := exists_read_of_mem ha
  exact ⟨c, hc⟩

/-- An object was read from an element, as an object of its kind. -/
def Standalone.IsRead : Standalone → Prop
  | .model m => ∃ c, (Model.ofElement c).value = some m
  | .light l => ∃ c, (Light.ofElement c).value = some l
  | .actor a => ∃ c, (Actor.ofElement c).value = some a

namespace Document

/-- The actors of a document: in its worlds, or alone. -/
inductive HoldsActor (d : Document) : Actor → Prop
  | inWorld {w : World} {a : Actor} : w ∈ d.worlds → a ∈ w.actors → d.HoldsActor a
  | alone {a : Actor} : d.content = some (.actor a) → d.HoldsActor a

/-- The worlds of a document that was read were read. -/
theorem exists_read_of_world {w : World} (h : w ∈ (ofElement e).value.worlds) :
    ∃ c, (World.ofElement c).value = some w := by
  unfold ofElement at h
  split at h
  · cases h
  · obtain ⟨c, -, hc⟩ := exists_read_of_mem h
    exact ⟨c, hc⟩

/-- What stands alone is one of the objects that were found. -/
theorem mem_of_chooseContent {worlds : List World} {found : List Standalone} {x : Standalone}
    (h : (chooseContent worlds found).value = some x) : x ∈ found := by
  unfold chooseContent at h
  split at h
  · cases h
  -- of several objects the first one is taken
  · simp only [value_ite_bind] at h
    exact List.mem_of_head? h

/-- What stands alone in a document that was read was read. -/
theorem isRead_of_content {x : Standalone} (h : (ofElement e).value.content = some x) :
    x.IsRead := by
  unfold ofElement at h
  split at h
  · cases h
  · have hmem := mem_of_chooseContent h
    simp only [List.mem_append, List.mem_map] at hmem
    obtain (⟨m, hm, rfl⟩ | ⟨l, hl, rfl⟩) | ⟨a, ha, rfl⟩ := hmem
    · obtain ⟨c, -, hc⟩ := exists_read_of_mem hm
      exact ⟨c, hc⟩
    · obtain ⟨c, -, hc⟩ := exists_read_of_mem hl
      exact ⟨c, hc⟩
    · obtain ⟨c, -, hc⟩ := exists_read_of_mem ha
      exact ⟨c, hc⟩

/-- All models in a document that was read were read themselves. -/
theorem exists_read_of_holds {m : Model} (h : (ofElement e).value.Holds m) :
    ∃ c, (Model.ofElement c).value = some m := by
  -- by the way down to the model, from its world or from the object that stands alone
  induction h with
  | inWorld hw hm =>
    obtain ⟨_, hc⟩ := exists_read_of_world hw
    exact World.exists_read_of_model hc hm
  | alone hm => exact isRead_of_content hm
  | nested _ hk ih =>
    obtain ⟨_, hc⟩ := ih
    obtain ⟨c, -, hread⟩ := Model.exists_read_of_nested hc hk
    exact ⟨c, hread⟩

/-- So were all actors. -/
theorem exists_read_of_holdsActor {a : Actor} (h : (ofElement e).value.HoldsActor a) :
    ∃ c, (Actor.ofElement c).value = some a := by
  cases h with
  | inWorld hw ha =>
    obtain ⟨_, hc⟩ := exists_read_of_world hw
    exact World.exists_read_of_actor hc ha
  | alone ha => exact isRead_of_content ha

/-- A text that is markup loads as some element is read. -/
theorem exists_load_eq (before : Document) (policy : Policy) {text : String}
    (h : (Element.ofDocument text).isOk = true) :
    ∃ root, (load before policy text).document = (ofElement root).value := by
  cases hroot : Element.ofDocument text with
  | error e =>
    rw [hroot] at h
    cases h
  | ok root => exact ⟨root, by rw [load_of_ok (readDocument_of_ofDocument hroot)]⟩

theorem isOk_armElement : (Element.ofDocument armElement.toDocument).isOk = true := by
  rw [Element.ofDocument,
    Element.readDocument_toDocument proper_armElement.named proper_armElement.tidy]
  rfl

theorem holds_armModel : (load .empty .standard armElement.toDocument).document.Holds armModel :=
  .alone (by rw [load_armElement.2]; rfl)

end Document

end Scene
