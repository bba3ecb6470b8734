/-
Links under editing.

What a link holds can be asked where it stands with nothing else at hand than its
own fields and a graph, so it has to know the name of its link.  That name is a
copy.  It is written when something is put into the link and when the link is
renamed, and all else that can be done leaves it as it is: clearing only takes
away, and what is changed in place keeps its owner.

So in a link that is new or was read, whatever has been done to it since,
everything knows the name that the link has now.

Main statement: `Made.owns`.
-/
import Scene.Proofs.Frames.Draft
import Scene.Proofs.Reading.Value
import Scene.Reading.Link

namespace Scene

/-- What holds of all members still does when one is changed, if the change keeps
it. -/
theorem forall_mem_modify {α : Type} {p : α → Prop} {f : α → α} {xs : List α} {i : Nat}
    (hxs : ∀ x ∈ xs, p x) (hf : ∀ x, p x → p (f x)) : ∀ x ∈ xs.modify i f, p x := by
  intro x hx
  obtain ⟨j, hj⟩ := List.mem_iff_getElem?.mp hx
  rw [List.getElem?_modify] at hj
  obtain ⟨y, hy, rfl⟩ := Option.map_eq_some_iff.mp hj
  have hy := hxs y (List.mem_of_getElem? hy)
  split
  · exact hf y hy
  · exact hy

/-- So it does when one is added, if it holds of that one. -/
theorem forall_mem_addUnique {α : Type} [Named α] {p : α → Prop} {xs : List α} {x : α}
    (hxs : ∀ y ∈ xs, p y) (hx : p x) : ∀ y ∈ (addUnique xs x).1, p y := by
  rw [addUnique_eq]
  split
  · exact hxs
  · exact List.forall_mem_append.mpr ⟨hxs, List.forall_mem_singleton.mpr hx⟩

namespace Link

/-! ### Edits -/

/-- What can be done to a link. -/
inductive Edit
  | rename (name : String)
  | setPlacement (placement : Placement)
  | setInertial (inertial : Option Inertial)
  | addCollision (c : Collision)
  | addVisual (v : Visual)
  | addLight (x : Light)
  | clearCollisions
  | clearVisuals
  | clearLights
  /-- Change all of a collision but its owner. -/
  | setCollision (i : Nat) (c : Collision)
  /-- Change all of a visual but its owner. -/
  | setVisual (i : Nat) (v : Visual)
  /-- Change all of a light but its owner. -/
  | setLight (i : Nat) (x : Light)

/-- The link after an edit, whether or not an addition was refused. -/
def edit (l : Link) : Edit → Link
  | .rename name => l.rename name
  | .setPlacement placement => { l with placement }
  | .setInertial inertial => { l with inertial }
  | .addCollision c => (l.addCollision c).1
  | .addVisual v => (l.addVisual v).1
  | .addLight x => (l.addLight x).1
  | .clearCollisions => l.clearCollisions
  | .clearVisuals => l.clearVisuals
  | .clearLights => l.clearLights
  | .setCollision i c =>
    { l with collisions := l.collisions.modify i fun old => { c with owner := old.owner } }
  | .setVisual i v =>
    { l with visuals := l.visuals.modify i fun old => { v with owner := old.owner } }
  | .setLight i x =>
    { l with lights := l.lights.modify i fun old => { x with owner := old.owner } }

/-- Links as they come about: they are new or were read, and then edited. -/
inductive Made : Link → Prop
  | new (name : String) : Made { name }
  | read {e : Element} {l : Link} : (ofElement e).value = some l → Made l
  | edit {l : Link} (e : Edit) : Made l → Made (l.edit e)

/-! ### Owners -/

/-- Everything in a link knows the name of the link. -/
structure Owns (l : Link) : Prop where
  collisions : ∀ c ∈ l.collisions, c.owner = l.name
  visuals : ∀ v ∈ l.visuals, v.owner = l.name
  lights : ∀ x ∈ l.lights, x.owner = l.name

theorem owns_adopt (l : Link) : l.adopt.Owns where
  collisions := by simp [adopt]
  visuals := by simp [adopt]
  lights := by simp [adopt]

/-- A link that was read has adopted what it holds. -/
theorem owns_of_ofElement {e : Element} {l : Link} (h : (ofElement e).value = some l) :
    l.Owns := by
  obtain ⟨name, -, h⟩ := Reported.exists_of_value_bind rfl h
  obtain rfl := Option.some.inj h
  exact owns_adopt _

/-- No edit leaves anything with another owner. -/
theorem Owns.edit {l : Link} (h : l.Owns) (e : Edit) : (l.edit e).Owns := by
  cases e with
  | rename name => exact owns_adopt _
  | setPlacement placement => exact ⟨h.collisions, h.visuals, h.lights⟩
  | setInertial inertial => exact ⟨h.collisions, h.visuals, h.lights⟩
  -- whether the addition is refused or not: if it is not, the owner was written anew
  | addCollision c => exact ⟨forall_mem_addUnique h.collisions rfl, h.visuals, h.lights⟩
  | addVisual v => exact ⟨h.collisions, forall_mem_addUnique h.visuals rfl, h.lights⟩
  | addLight x => exact ⟨h.collisions, h.visuals, forall_mem_addUnique h.lights rfl⟩
  | clearCollisions => exact ⟨List.forall_mem_nil _, h.visuals, h.lights⟩
  | clearVisuals => exact ⟨h.collisions, List.forall_mem_nil _, h.lights⟩
  | clearLights => exact ⟨h.collisions, h.visuals, List.forall_mem_nil _⟩
  -- a change in place keeps the owner that was there
  | setCollision i c =>
    exact ⟨forall_mem_modify h.collisions fun _ hold => hold, h.visuals, h.lights⟩
  | setVisual i v =>
    exact ⟨h.collisions, forall_mem_modify h.visuals fun _ hold => hold, h.lights⟩
  | setLight i x =>
    exact ⟨h.collisions, h.visuals, forall_mem_modify h.lights fun _ hold => hold⟩

/-- **Owners never go stale.**  However a link came about, everything in it knows
the name that the link has. -/
theorem Made.owns {l : Link} (h : l.Made) : l.Owns := by
  -- by the way the link came about; each edit keeps what was right before it
  induction h with
  | new name => exact ⟨List.forall_mem_nil _, List.forall_mem_nil _, List.forall_mem_nil _⟩
  | read h => exact owns_of_ofElement h
  | edit e _ ih => exact ih.edit e

end Link

end Scene
