/-
The arena of a graph and its index.

A graph is made from a scope frame by adding frames one at a time.  Whatever
is added, the index and the arena keep describing each other: a name is
indexed with a position exactly if the frame at that position has the name.
So names tell frames apart, every position found under a name exists, and the
frame found there has the name that was asked for.

`Reachable` says how a graph was made, `Indexed` what follows from it.  Later
modules use the second only, through `vertex?_eq_some_iff` for names and
`position?_eq_some_iff` for positions.
-/
import Scene.Frames.Resolve

namespace Scene.FrameGraph

variable {R : Type}

/-! ### Graphs that can be made -/

/-- Graphs that come from a constructor by adding frames. -/
inductive Reachable [OfNat R 0] [OfNat R 1] : FrameGraph R → Prop
  | ofName (name : String) : Reachable (.ofName name)
  | model (canonical : String) : Reachable (.model canonical)
  | add {g g' : FrameGraph R} {v : Vertex R} :
      Reachable g → g.add v = .ok g' → Reachable g'

/-- The index and the arena describe each other, and the first frame is that
of the scope. -/
structure Indexed (g : FrameGraph R) : Prop where
  scope : ∃ v : Vertex R, g.vertices[0]? = some v ∧ v.kind = .scope
  index_iff : ∀ name i,
    g.index[name]? = some i ↔ ∃ v : Vertex R, g.vertices[i]? = some v ∧ v.name = name

/-- A graph of a scope alone has a sound index. -/
theorem indexed_ofScope {scope : Vertex R} (h : scope.kind = .scope) :
    (ofScope scope).Indexed where
  scope := ⟨scope, rfl, h⟩
  index_iff := by
    intro name i
    simp only [ofScope, Std.TreeMap.getElem?_insert, Std.TreeMap.getElem?_emptyc,
      Std.LawfulEqCmp.compare_eq_iff_eq]
    -- the scope frame is at position zero, and there is no other
    rcases i with - | i
    · simp
    · simp

/-- What a successful addition gives. -/
theorem add_eq_ok_iff {g g' : FrameGraph R} {v : Vertex R} :
    g.add v = .ok g' ↔ g.contains v.name = false ∧
      g' = ⟨g.vertices.push v, g.index.insert v.name g.vertices.size⟩ := by
  unfold add
  cases h : g.contains v.name with
  | true => simp
  | false => simp [eq_comm]

theorem contains_eq_false_iff {g : FrameGraph R} {name : String} :
    g.contains name = false ↔ g.index[name]? = none := by
  rw [contains, Std.TreeMap.contains_eq_isSome_getElem?, Option.isSome_eq_false_iff,
    Option.isNone_iff_eq_none]

/-- Adding a frame keeps the index sound. -/
theorem Indexed.add {g g' : FrameGraph R} {v : Vertex R} (hg : g.Indexed)
    (h : g.add v = .ok g') : g'.Indexed := by
  obtain ⟨hfree, rfl⟩ := add_eq_ok_iff.mp h
  rw [contains_eq_false_iff] at hfree
  constructor
  · -- the scope frame stays in front
    obtain ⟨s, hs, hkind⟩ := hg.scope
    refine ⟨s, ?_, hkind⟩
    obtain ⟨hsize, -⟩ := Array.getElem?_eq_some_iff.mp hs
    rw [Array.getElem?_push, if_neg (by omega), hs]
  · intro name i
    rw [Std.TreeMap.getElem?_insert, Array.getElem?_push]
    simp only [Std.LawfulEqCmp.compare_eq_iff_eq]
    by_cases hname : v.name = name
    · -- the only frame of the new name is the new one
      subst hname
      rw [if_pos rfl, Option.some.injEq]
      constructor
      · rintro rfl
        exact ⟨v, by simp, rfl⟩
      · rintro ⟨u, hu, huv⟩
        by_cases hi : i = g.vertices.size
        · exact hi.symm
        · rw [if_neg hi] at hu
          have := (hg.index_iff v.name i).mpr ⟨u, hu, huv⟩
          rw [hfree] at this
          cases this
    · -- nothing changes for other names
      rw [if_neg hname, hg.index_iff]
      by_cases hi : i = g.vertices.size
      · subst hi
        simp [hname]
      · rw [if_neg hi]

/-- Whatever was added, the index is right. -/
theorem Reachable.indexed [OfNat R 0] [OfNat R 1] {g : FrameGraph R} (h : g.Reachable) :
    g.Indexed := by
  induction h with
  | ofName name => exact indexed_ofScope rfl
  | model canonical => exact indexed_ofScope rfl
  | add _ hadd ih => exact ih.add hadd

/-! ### Names and positions -/

variable {g : FrameGraph R}

theorem vertexAt_mem (i : Fin g.vertices.size) : g.vertexAt i ∈ g.vertices :=
  Array.getElem_mem i.isLt

namespace Indexed

/-- The index gives exactly the position of the frame of a name. -/
theorem position?_eq_some_iff (hg : g.Indexed) {name : String} {i : Fin g.vertices.size} :
    g.position? name = some i ↔ g.nameAt i = name := by
  have hpos : g.position? name = some i ↔ g.index[name]? = some i.val := by
    unfold position?
    rw [Option.bind_eq_some_iff]
    constructor
    · rintro ⟨j, hj, hi⟩
      split at hi
      · cases hi
        exact hj
      · cases hi
    · intro h
      exact ⟨i, h, by simp⟩
  rw [hpos, hg.index_iff]
  simp [nameAt, vertexAt]

theorem position?_nameAt (hg : g.Indexed) (i : Fin g.vertices.size) :
    g.position? (g.nameAt i) = some i := hg.position?_eq_some_iff.mpr rfl

/-- Names tell frames apart. -/
theorem nameAt_injective (hg : g.Indexed) : Function.Injective g.nameAt := by
  intro i j h
  have hi := hg.position?_nameAt i
  rw [h, hg.position?_nameAt j] at hi
  exact (Option.some.inj hi).symm

/-- What is found under a name is the frame that has it. -/
theorem vertex?_eq_some_iff (hg : g.Indexed) {name : String} {v : Vertex R} :
    g.vertex? name = some v ↔ v ∈ g.vertices ∧ v.name = name := by
  unfold vertex?
  rw [Option.map_eq_some_iff]
  constructor
  · rintro ⟨i, hi, rfl⟩
    exact ⟨vertexAt_mem i, hg.position?_eq_some_iff.mp hi⟩
  · rintro ⟨hv, rfl⟩
    obtain ⟨i, hi, rfl⟩ := Array.mem_iff_getElem.mp hv
    exact ⟨⟨i, hi⟩, hg.position?_nameAt ⟨i, hi⟩, rfl⟩

theorem vertex?_name (hg : g.Indexed) {v : Vertex R} (hv : v ∈ g.vertices) :
    g.vertex? v.name = some v := hg.vertex?_eq_some_iff.mpr ⟨hv, rfl⟩

/-- Frames of one name are the same. -/
theorem eq_of_name_eq (hg : g.Indexed) {v w : Vertex R} (hv : v ∈ g.vertices)
    (hw : w ∈ g.vertices) (h : v.name = w.name) : v = w := by
  have hfound := hg.vertex?_name hv
  rw [h, hg.vertex?_name hw] at hfound
  exact (Option.some.inj hfound).symm

/-- A name is taken exactly if it has a frame. -/
theorem contains_iff (hg : g.Indexed) {name : String} :
    g.contains name = true ↔ ∃ v, g.vertex? name = some v := by
  rw [contains, Std.TreeMap.contains_eq_isSome_getElem?, Option.isSome_iff_exists]
  constructor
  · rintro ⟨i, hi⟩
    obtain ⟨v, hv, hname⟩ := (hg.index_iff name i).mp hi
    exact ⟨v, hg.vertex?_eq_some_iff.mpr ⟨Array.mem_of_getElem? hv, hname⟩⟩
  · rintro ⟨v, hv⟩
    obtain ⟨hmem, hname⟩ := hg.vertex?_eq_some_iff.mp hv
    obtain ⟨i, hi⟩ := Array.mem_iff_getElem?.mp hmem
    exact ⟨i, (hg.index_iff name i).mpr ⟨v, hi, hname⟩⟩

/-- The scope frame is found under the name of the scope. -/
theorem vertex?_scopeName (hg : g.Indexed) :
    ∃ v, g.vertex? g.scopeName = some v ∧ v.kind = .scope := by
  -- the scope is named after the first frame
  obtain ⟨v, hv, hkind⟩ := hg.scope
  refine ⟨v, hg.vertex?_eq_some_iff.mpr ⟨Array.mem_of_getElem? hv, ?_⟩, hkind⟩
  simp [scopeName, hv]

end Indexed

/-- A name has a frame exactly if it has a position. -/
theorem vertex?_eq_none_iff {name : String} :
    g.vertex? name = none ↔ g.position? name = none := by
  simp [vertex?]

end Scene.FrameGraph
