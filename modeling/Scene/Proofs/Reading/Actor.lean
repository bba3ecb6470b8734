/-
Actors as they are read.

The waypoints of a trajectory are in the order of their times.  The order is
one of numerals, for it tells apart what numbers do not; of a trajectory that
was read it is said that its times are the values of numerals in order.
-/
import Scene.Proofs.Reading.Joint
import Scene.Proofs.Reading.Link
import Scene.Proofs.Reading.Script

namespace Scene

open Reported Element

variable {policy : Policy} {e : Element}

/-! ### Animations and skins -/

/-- What is checked of an animation. -/
structure Animation.Valid (a : Animation) : Prop where
  name : a.name ≠ ""
  filename : Text.IsTidy a.filename

/-- An animation that is read without errors is valid. -/
theorem Animation.valid_of_gives (he : e.Tidy) {a : Animation}
    (h : (ofElement e).Gives policy (some a)) : a.Valid := by
  simp only [ofElement, gives_bind, gives_readName] at h
  obtain ⟨_, ⟨name, -, hname, rfl⟩, h⟩ := h
  simp only [gives_bind] at h
  obtain ⟨-, -, h⟩ := h
  split at h
  · simp at h
  · next filename hfile =>
    simp only [gives_bind, gives_pure, Option.some.injEq] at h
    obtain ⟨_, -, _, -, rfl⟩ := h
    exact ⟨hname, he.childText? hfile⟩

/-- A skin that is read without errors has a tidy file name. -/
theorem Skin.filename_of_gives (he : e.Tidy) {s : Skin}
    (h : (ofElement e).Gives policy (some s)) : Text.IsTidy s.filename := by
  simp only [ofElement] at h
  split at h
  · simp at h
  · next filename hfile =>
    simp only [gives_bind, gives_pure, Option.some.injEq] at h
    obtain ⟨_, -, rfl⟩ := h
    exact he.childText? hfile

/-! ### Scripts -/

namespace Trajectory

/-- The times of the waypoints are the values of numerals in order. -/
def InOrder (t : Trajectory) : Prop :=
  ∃ times : List Number.Numeral, t.waypoints.map Waypoint.time = times.map Number.Numeral.toFloat ∧
    times.Pairwise fun a b => a.rank .double ≤ b.rank .double

/-- The waypoints are put in order, whatever was wrong with them. -/
theorem inOrder_ofElement (e : Element) (id : UInt64) : (ofElement e id).value.InOrder := by
  refine ⟨((found e).mergeSort Trajectory.inOrder).map Prod.fst, ?_, ?_⟩
  · rw [waypoints_ofElement, List.map_map, List.map_map]
    rfl
  · exact List.pairwise_map.mpr (sorts_mergeSort (found e)).inOrder

end Trajectory

namespace Script

/-- What is checked of a script. -/
structure Valid (s : Script) : Prop where
  inOrder : ∀ t ∈ s.trajectories, t.InOrder
  distinct : (s.trajectories.map Trajectory.id).Nodup

/-- Whatever is wrong with a script, these checks are passed. -/
theorem valid_ofElement (e : Element) : (ofElement e).value.Valid where
  inOrder := by
    rw [trajectories_ofElement]
    exact List.forall_mem_map.mpr fun p _ => Trajectory.inOrder_ofElement p.1 p.2
  distinct := by
    rw [trajectories_ofElement, map_id_loaded]
    exact nodup_map_firsts _ _

end Script

/-! ### Actors -/

namespace Actor

/-- What is checked of an actor. -/
structure Valid (policy : Policy) (a : Actor) : Prop where
  name : a.name ≠ ""
  skin : ∀ s, a.skin = some s → Text.IsTidy s.filename
  animations : ∀ x ∈ a.animations, x.Valid
  script : a.script.Valid
  links : ∀ l ∈ a.links, l.Valid policy
  joints : ∀ j ∈ a.joints, j.Valid policy
  distinct : Distinct a.animations ∧ Distinct a.links ∧ Distinct a.joints

/-- An actor that is read without errors is valid, with all its parts. -/
theorem valid_of_gives (he : e.Tidy) {a : Actor} (h : (ofElement e).Gives policy (some a)) :
    a.Valid policy := by
  simp only [ofElement, gives_bind, gives_readName] at h
  obtain ⟨_, ⟨name, -, hname, rfl⟩, h⟩ := h
  simp only [gives_bind, gives_readChildD, gives_pure, Option.some.injEq] at h
  obtain ⟨_, -, -, -, skin, hskin, animations, hanimations, script, hscript, links, hlinks, joints,
    hjoints, rfl⟩ := h
  obtain ⟨had, hanimations⟩ := hanimations.of_readAll
  obtain ⟨hld, hlinks⟩ := hlinks.of_readAll
  obtain ⟨hjd, hjoints⟩ := hjoints.of_readAll
  refine ⟨hname, ?_, ?_, ?_, ?_, ?_, ⟨had, hld, hjd⟩⟩
  · rintro s hs
    obtain rfl : skin = some s := hs
    obtain ⟨-, hnone⟩ | ⟨c, hc, hread⟩ := hskin
    · cases hnone
    · exact Skin.filename_of_gives (he.child (mem_of_child? hc)) hread
  · intro x hx
    obtain ⟨c, hc, hread⟩ := hanimations x hx
    exact Animation.valid_of_gives (he.child hc) hread
  -- without a script there are no trajectories to check
  · obtain ⟨-, rfl⟩ | ⟨c, -, hread⟩ := hscript
    · exact ⟨by simp, by simp⟩
    · exact hread.2 ▸ Script.valid_ofElement c
  · intro l hl
    obtain ⟨c, hc, hread⟩ := hlinks l hl
    exact Link.valid_of_gives (he.child hc) hread
  · intro j hj
    obtain ⟨c, hc, hread⟩ := hjoints j hj
    exact Joint.valid_of_gives (he.child hc) hread

end Actor

end Scene
