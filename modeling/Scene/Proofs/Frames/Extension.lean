/-
Graphs with more frames.

One graph extends another if it has all the frames of that one, and their
scopes have one name.  References are read off frames and the name of the
scope, so they lead the same way in both graphs.  A course through the smaller
graph is therefore one through the larger graph, unless it is lost at a name
that has a frame in the larger one.

Adding a frame extends a graph by one name.  So whatever had a pose or a body
keeps it, references that go round in a circle still do so, and the only
answers that change are those that were errors about the name of the new frame.

Main statement: `afterAdd_conservative`.
-/
import Scene.Proofs.Frames.AttachedBody
import Scene.Proofs.Frames.PoseInScope
import Scene.Proofs.Frames.Validate

namespace Scene.FrameGraph

variable {R : Type} {g h : FrameGraph R} {reference : Vertex R → Option String}

/-- The frames of `g` are among those of `h`, and their scopes have one name. -/
structure Extends (h g : FrameGraph R) : Prop where
  scopeName : h.scopeName = g.scopeName
  mem : ∀ v ∈ g.vertices, v ∈ h.vertices

namespace Extends

/-! ### References -/

/-- A frame is placed relative to the same name in both graphs. -/
theorem relativeReference_eq (hext : h.Extends g) :
    h.relativeReference = g.relativeReference := by
  funext v
  rw [relativeReference, relativeReference, hext.scopeName]

/-- A frame is attached to the same name in both graphs. -/
theorem attachedReference_eq (hext : h.Extends g) :
    h.attachedReference = g.attachedReference := by
  funext v
  rw [attachedReference, attachedReference, hext.scopeName]

variable (hext : h.Extends g) (hg : g.Indexed) (hh : h.Indexed)

include hext hg hh

/-- What was found is found. -/
theorem vertex?_eq_some {name : String} {v : Vertex R} (hv : g.vertex? name = some v) :
    h.vertex? name = some v := by
  obtain ⟨hmem, hname⟩ := hg.vertex?_eq_some_iff.mp hv
  exact hh.vertex?_eq_some_iff.mpr ⟨hext.mem v hmem, hname⟩

/-- A way through the smaller graph is one through the larger one. -/
theorem leads {name last : String} {vs : List (Vertex R)}
    (hlead : g.Leads reference name vs last) : h.Leads reference name vs last := by
  have hfollow (a b : String) (hab : g.follow reference a = some b) :
      h.follow reference a = some b := by
    obtain ⟨v, hv, hb⟩ := Option.bind_eq_some_iff.mp hab
    exact Option.bind_eq_some_iff.mpr ⟨v, hext.vertex?_eq_some hg hh hv, hb⟩
  obtain ⟨htrail, hvs⟩ := hlead
  exact ⟨htrail.imp hfollow, fun v hv => hext.mem v (hvs v hv)⟩

/-! ### Courses -/

/-- A course can be taken in the larger graph, unless it was lost where there
is a frame now. -/
theorem takes_or_found {name : String} {c : Course R} (hc : g.Takes reference name c) :
    h.Takes reference name c ∨
      ∃ vs last v, c = .lost vs last ∧ h.vertex? last = some v := by
  have hlead := hext.leads hg hh hc.leads
  cases c with
  | rests vs v => exact .inl ⟨hlead, hext.mem v hc.2.1, hc.2.2⟩
  | returns vs last => exact .inl ⟨hlead, hc.2⟩
  | lost vs last =>
    cases hlast : h.vertex? last with
    | none => exact .inl ⟨hlead, hlast⟩
    | some v => exact .inr ⟨vs, last, v, rfl, hlast⟩

/-- A pose stays as it is, unless there was none for want of a frame that there
is now. -/
theorem poseInScope_eq_or [Mul R] [Add R] [Sub R] [OfNat R 0] [OfNat R 1] (name : String) :
    h.poseInScope name = g.poseInScope name ∨
      ∃ vs last v, g.Takes g.relativeReference name (.lost vs last) ∧ h.vertex? last = some v := by
  obtain ⟨c, hc⟩ := exists_takes hg g.relativeReference name
  obtain hc' | ⟨vs, last, v, rfl, hv⟩ := hext.takes_or_found hg hh hc
  · rw [← hext.relativeReference_eq] at hc'
    exact .inl ((poseInScope_eq_of_takes hh hc').trans (poseInScope_eq_of_takes hg hc).symm)
  · exact .inr ⟨vs, last, v, hc, hv⟩

/-- So does a body. -/
theorem attachedBody_eq_or (name : String) :
    h.attachedBody name = g.attachedBody name ∨
      ∃ vs last v, g.Takes g.attachedReference name (.lost vs last) ∧ h.vertex? last = some v := by
  obtain ⟨c, hc⟩ := exists_takes hg g.attachedReference name
  obtain hc' | ⟨vs, last, v, rfl, hv⟩ := hext.takes_or_found hg hh hc
  · rw [← hext.attachedReference_eq] at hc'
    rw [attachedBody_eq_of_takes hh hc', attachedBody_eq_of_takes hg hc]
    -- of the graph, the body of a course only knows the name of the scope
    cases c with
    | rests => exact .inl rfl
    | returns => exact .inl rfl
    | lost vs last =>
      left
      simp only [bodyOfCourse, attachedMissing, hext.scopeName]
  · exact .inr ⟨vs, last, v, hc, hv⟩

end Extends

/-! ### Adding a frame -/

/-- An addition is refused exactly if the name is taken. -/
theorem add_eq_error_iff {v : Vertex R} {e : Error} :
    g.add v = .error e ↔
      g.contains v.name = true ∧ e = .frameNameTaken v.name g.scopeName := by
  unfold add
  cases g.contains v.name with
  | true => simp [eq_comm]
  | false => simp

/-- Adding a frame does not rename the scope. -/
theorem Indexed.scopeName_eq_of_add {v : Vertex R} (hg : g.Indexed) (hadd : g.add v = .ok h) :
    h.scopeName = g.scopeName := by
  obtain ⟨-, rfl⟩ := add_eq_ok_iff.mp hadd
  -- the arena is not empty, so the new frame does not come first
  obtain ⟨s, hs, -⟩ := hg.scope
  obtain ⟨hsize, -⟩ := Array.getElem?_eq_some_iff.mp hs
  simp only [scopeName, Array.getElem?_push, if_neg (show ¬ 0 = g.vertices.size by omega)]

/-- A graph with a frame added extends the graph. -/
theorem extends_of_add {v : Vertex R} (hg : g.Indexed) (hadd : g.add v = .ok h) :
    h.Extends g := by
  refine ⟨hg.scopeName_eq_of_add hadd, ?_⟩
  obtain ⟨-, rfl⟩ := add_eq_ok_iff.mp hadd
  exact fun u hu => Array.mem_push_of_mem v hu

/-- Beside what was there before, the new frame is found. -/
theorem name_eq_of_add {v u : Vertex R} {name : String} (hg : g.Indexed)
    (hadd : g.add v = .ok h) (hnone : g.vertex? name = none) (hu : h.vertex? name = some u) :
    name = v.name := by
  obtain ⟨hmem, rfl⟩ := (hg.add hadd).vertex?_eq_some_iff.mp hu
  obtain ⟨-, rfl⟩ := add_eq_ok_iff.mp hadd
  -- what was in the arena before would have been found before
  rcases Array.mem_push.mp hmem with hmem | rfl
  · rw [hg.vertex?_name hmem] at hnone
    cases hnone
  · rfl

/-- The graph after an attempt to add a frame: as it was, if the name is
taken. -/
def afterAdd (g : FrameGraph R) (v : Vertex R) : FrameGraph R := (g.add v).toOption.getD g

/-- An attempt is refused and changes nothing, or the frame is added. -/
theorem afterAdd_cases (g : FrameGraph R) (v : Vertex R) :
    (g.contains v.name = true ∧ g.add v = .error (.frameNameTaken v.name g.scopeName) ∧
      g.afterAdd v = g) ∨
    (g.contains v.name = false ∧ g.add v = .ok (g.afterAdd v)) := by
  cases hadd : g.add v with
  | error e =>
    obtain ⟨htaken, rfl⟩ := add_eq_error_iff.mp hadd
    refine .inl ⟨htaken, rfl, ?_⟩
    rw [afterAdd, hadd]
    rfl
  | ok h =>
    refine .inr ⟨(add_eq_ok_iff.mp hadd).1, ?_⟩
    rw [afterAdd, hadd]
    rfl

section

variable (hg : g.Indexed) (v : Vertex R)

include hg

/-- An attempt keeps the index sound. -/
theorem Indexed.afterAdd : (g.afterAdd v).Indexed := by
  obtain ⟨-, -, heq⟩ | ⟨-, hadd⟩ := afterAdd_cases g v
  · exact heq.symm ▸ hg
  · exact hg.add hadd

/-- An attempt extends the graph, or leaves it. -/
theorem extends_afterAdd : (g.afterAdd v).Extends g := by
  obtain ⟨-, -, heq⟩ | ⟨-, hadd⟩ := afterAdd_cases g v
  · exact heq.symm ▸ ⟨rfl, fun u hu => hu⟩
  · exact extends_of_add hg hadd

variable {v}

/-- Under no other name is there a frame that was not there. -/
theorem name_eq_of_afterAdd {u : Vertex R} {name : String} (hnone : g.vertex? name = none)
    (hu : (g.afterAdd v).vertex? name = some u) : name = v.name := by
  obtain ⟨-, -, heq⟩ | ⟨-, hadd⟩ := afterAdd_cases g v
  · rw [heq, hnone] at hu
    cases hu
  · exact name_eq_of_add hg hadd hnone hu

variable (v)

/-- A pose changes by an attempt only if its course was lost at the new name. -/
theorem poseInScope_afterAdd [Mul R] [Add R] [Sub R] [OfNat R 0] [OfNat R 1] (name : String) :
    (g.afterAdd v).poseInScope name = g.poseInScope name ∨
      ∃ vs, g.Takes g.relativeReference name (.lost vs v.name) := by
  obtain heq | ⟨vs, last, u, hc, hu⟩ :=
    (extends_afterAdd hg v).poseInScope_eq_or hg (hg.afterAdd v) name
  · exact .inl heq
  · exact .inr ⟨vs, name_eq_of_afterAdd hg hc.2 hu ▸ hc⟩

/-- A body changes by an attempt only if its course was lost at the new name. -/
theorem attachedBody_afterAdd (name : String) :
    (g.afterAdd v).attachedBody name = g.attachedBody name ∨
      ∃ vs, g.Takes g.attachedReference name (.lost vs v.name) := by
  obtain heq | ⟨vs, last, u, hc, hu⟩ :=
    (extends_afterAdd hg v).attachedBody_eq_or hg (hg.afterAdd v) name
  · exact .inl heq
  · exact .inr ⟨vs, name_eq_of_afterAdd hg hc.2 hu ▸ hc⟩

end

/-- **Adding a frame changes no answer but those that were errors about its
name.**  An attempt is refused, and then nothing changes, or the frame is added.
Either way names that have a pose or a body keep it, and so does every name
that leads into a circle; where an answer changes, references led to the name of
the new frame, and the answer was that it is missing. -/
theorem afterAdd_conservative [Mul R] [Add R] [Sub R] [OfNat R 0] [OfNat R 1]
    (hg : g.Reachable) (v : Vertex R) :
    ((g.add v = .error (.frameNameTaken v.name g.scopeName) ∧ g.afterAdd v = g) ∨
      g.add v = .ok (g.afterAdd v)) ∧
    (∀ name p, g.poseInScope name = .ok p → (g.afterAdd v).poseInScope name = .ok p) ∧
    (∀ name path, g.poseInScope name = .error [.poseCycle path] →
      (g.afterAdd v).poseInScope name = .error [.poseCycle path]) ∧
    (∀ name, (g.afterAdd v).poseInScope name ≠ g.poseInScope name →
      ∃ vs, g.Takes g.relativeReference name (.lost vs v.name) ∧
        g.poseInScope name = .error [.frameNotFound v.name (lookedUpFor vs)]) ∧
    (∀ name body, g.attachedBody name = .ok body →
      (g.afterAdd v).attachedBody name = .ok body) ∧
    (∀ name path, g.attachedBody name = .error [.attachedToCycle path] →
      (g.afterAdd v).attachedBody name = .error [.attachedToCycle path]) ∧
    ∀ name, (g.afterAdd v).attachedBody name ≠ g.attachedBody name →
      ∃ vs, g.Takes g.attachedReference name (.lost vs v.name) ∧
        g.attachedBody name = .error [.attachedToNotFound v.name g.scopeName] := by
  have hi := hg.indexed
  -- an answer that is not about the name of the new frame stays as it is
  have hpose {name : String} {answer : Except Errors (Pose R)} (h : g.poseInScope name = answer)
      (hother : ∀ context, answer ≠ .error [.frameNotFound v.name context]) :
      (g.afterAdd v).poseInScope name = answer := by
    obtain heq | ⟨vs, hc⟩ := poseInScope_afterAdd hi v name
    · rw [heq, h]
    · rw [poseInScope_eq_of_takes hi hc] at h
      exact absurd h.symm (hother (lookedUpFor vs))
  have hbody {name : String} {answer : Except Errors String} (h : g.attachedBody name = answer)
      (hother : answer ≠ .error [g.attachedMissing v.name]) :
      (g.afterAdd v).attachedBody name = answer := by
    obtain heq | ⟨vs, hc⟩ := attachedBody_afterAdd hi v name
    · rw [heq, h]
    · rw [attachedBody_eq_of_takes hi hc] at h
      exact absurd h.symm hother
  refine ⟨?_, ?_, ?_, ?_, ?_, ?_, ?_⟩
  · obtain ⟨-, hadd, heq⟩ | ⟨-, hadd⟩ := afterAdd_cases g v
    · exact .inl ⟨hadd, heq⟩
    · exact .inr hadd
  · intro name p hp
    exact hpose hp (by simp)
  · intro name path hpath
    exact hpose hpath (by simp)
  · intro name hne
    obtain heq | ⟨vs, hc⟩ := poseInScope_afterAdd hi v name
    · exact absurd heq hne
    · exact ⟨vs, hc, poseInScope_eq_of_takes hi hc⟩
  · intro name body hb
    exact hbody hb (by simp)
  · intro name path hpath
    exact hbody hpath (by simp [attachedMissing])
  · intro name hne
    obtain heq | ⟨vs, hc⟩ := attachedBody_afterAdd hi v name
    · exact absurd heq hne
    · exact ⟨vs, hc, attachedBody_eq_of_takes hi hc⟩

/-- The first frame of a tangle goes round with the second one. -/
theorem poseInScope_left_tangledGraph :
    tangledGraph.poseInScope "left" = .error [.poseCycle ["left", "right", "left"]] :=
  poseInScope_eq_of_takes tangledGraph_reachable.indexed
    (c := .returns [placed "left" "right", placed "right" "left"] "left")
    ⟨⟨.cons rfl (.cons rfl (.nil _)), by simp [tangledGraph]⟩, by decide, by decide⟩

/-- The lost frame gets what it refers to, and the circle stays one. -/
theorem afterAdd_conservative_tangledGraph :
    tangledGraph.Reachable ∧
    tangledGraph.add (placed "ghost" "") = .ok (tangledGraph.afterAdd (placed "ghost" "")) ∧
    (tangledGraph.afterAdd (placed "ghost" "")).poseInScope "world" = .ok .identity ∧
    (tangledGraph.afterAdd (placed "ghost" "")).poseInScope "left" =
      .error [.poseCycle ["left", "right", "left"]] ∧
    (tangledGraph.afterAdd (placed "ghost" "")).poseInScope "astray" = .ok .identity ∧
    tangledGraph.poseInScope "astray" =
      .error [.frameNotFound "ghost" "relative_to of [astray]"] := by
  have hindexed := tangledGraph_reachable.indexed
  have hworld : tangledGraph.poseInScope "world" = .ok .identity :=
    poseInScope_eq_of_takes hindexed (c := .rests [] ground)
      ⟨⟨.nil _, by simp⟩, by simp [tangledGraph], rfl⟩
  have hastray : tangledGraph.poseInScope "astray" =
      .error [.frameNotFound "ghost" "relative_to of [astray]"] :=
    poseInScope_eq_of_takes hindexed (c := .lost [placed "astray" "ghost"] "ghost")
      ⟨⟨.cons rfl (.nil _), by simp [tangledGraph]⟩, rfl⟩
  obtain ⟨hadd, hposes, hcircles, -⟩ :=
    afterAdd_conservative tangledGraph_reachable (placed "ghost" "")
  have hadded := hadd.resolve_left (by rintro ⟨h, -⟩; cases h)
  have hmem : ∀ v ∈ [placed "astray" "ghost", placed "ghost" "", ground],
      v ∈ (tangledGraph.afterAdd (placed "ghost" "")).vertices := by
    show ∀ v ∈ _, v ∈ tangledGraph.vertices.push (placed "ghost" "")
    simp [tangledGraph]
  have hfound : (tangledGraph.afterAdd (placed "ghost" "")).poseInScope "astray" = .ok .identity :=
    poseInScope_eq_of_takes (hindexed.add hadded)
      (c := .rests [placed "astray" "ghost", placed "ghost" ""] ground)
      ⟨⟨.cons rfl (.cons rfl (.nil _)), fun v hv => hmem v (List.mem_append_left [ground] hv)⟩,
        hmem ground (by simp), rfl⟩
  exact ⟨tangledGraph_reachable, hadded, hposes _ _ hworld,
    hcircles _ _ poseInScope_left_tangledGraph, hfound, hastray⟩

end Scene.FrameGraph
