/-
Courses: how following references from a name ends.

`follow` goes from a name to the name that the frame of it refers to; nothing
in it speaks of positions, of walks or of what was visited.  A course is a
trail of such steps together with its end: a frame without a reference, a name
without a frame, or the name of a frame that was left before.

Main statements: from every name there is exactly one course (`Takes.unique`,
`exists_takes`), and a walk over positions is the course from the name of its
start (`walk_cases`).
-/
import Mathlib.Data.List.Nodup
import Mathlib.Data.Option.Basic
import Scene.Proofs.Frames.Index
import Scene.Proofs.Frames.Walk

namespace Scene.FrameGraph

variable {R : Type}

/-! ### Following references -/

/-- The name that the frame of a name refers to. -/
def follow (g : FrameGraph R) (reference : Vertex R → Option String) (name : String) :
    Option String :=
  (g.vertex? name).bind reference

/-- `g.Leads reference name vs last`: from `name`, references lead through the
frames `vs` of the graph to the name `last`. -/
def Leads (g : FrameGraph R) (reference : Vertex R → Option String) (name : String)
    (vs : List (Vertex R)) (last : String) : Prop :=
  Trail (g.follow reference) name (vs.map Vertex.name) last ∧ ∀ v ∈ vs, v ∈ g.vertices

/-- A way along references, and its end. -/
inductive Course (R : Type) where
  /-- It comes to a frame without a reference. -/
  | rests (through : List (Vertex R)) (v : Vertex R)
  /-- It comes to a name without a frame. -/
  | lost (through : List (Vertex R)) (name : String)
  /-- It comes back to a frame that it went through. -/
  | returns (through : List (Vertex R)) (name : String)

/-- Following references from a name takes a course. -/
def Takes (g : FrameGraph R) (reference : Vertex R → Option String) (name : String) :
    Course R → Prop
  | .rests vs v => g.Leads reference name vs v.name ∧ v ∈ g.vertices ∧ reference v = none
  | .lost vs last => g.Leads reference name vs last ∧ g.vertex? last = none
  | .returns vs last =>
    g.Leads reference name vs last ∧ (vs.map Vertex.name).Nodup ∧ last ∈ vs.map Vertex.name

variable {g : FrameGraph R} {reference : Vertex R → Option String}

/-- From the name of a frame, its own reference is followed. -/
theorem follow_name (hg : g.Indexed) {v : Vertex R} (hv : v ∈ g.vertices) :
    g.follow reference v.name = reference v := by
  rw [follow, hg.vertex?_name hv, Option.bind_some]

/-- Where there is no frame there is nothing to follow. -/
theorem follow_eq_none_of_missing {name : String} (h : g.vertex? name = none) :
    g.follow reference name = none := by
  rw [follow, h, Option.bind_none]

/-- What leads on is the reference of a frame. -/
theorem follow_eq_some_iff (hg : g.Indexed) {name next : String} :
    g.follow reference name = some next ↔
      ∃ v ∈ g.vertices, v.name = name ∧ reference v = some next := by
  rw [follow, Option.bind_eq_some_iff]
  constructor
  · rintro ⟨v, hv, hnext⟩
    obtain ⟨hmem, hname⟩ := hg.vertex?_eq_some_iff.mp hv
    exact ⟨v, hmem, hname, hnext⟩
  · rintro ⟨v, hmem, hname, hnext⟩
    exact ⟨v, hg.vertex?_eq_some_iff.mpr ⟨hmem, hname⟩, hnext⟩

/-- Frames of the graph are told apart by their names. -/
theorem eq_of_map_name_eq (hg : g.Indexed) {vs ws : List (Vertex R)}
    (hvs : ∀ v ∈ vs, v ∈ g.vertices) (hws : ∀ w ∈ ws, w ∈ g.vertices)
    (h : vs.map Vertex.name = ws.map Vertex.name) : vs = ws := by
  -- frames are recovered from their names by looking these up
  have found (us : List (Vertex R)) (hus : ∀ u ∈ us, u ∈ g.vertices) :
      (us.map Vertex.name).map g.vertex? = us.map some := by
    rw [List.map_map]
    exact List.map_congr_left fun u hu => hg.vertex?_name (hus u hu)
  have heq := congrArg (List.map g.vertex?) h
  rw [found vs hvs, found ws hws] at heq
  exact (Option.some_injective _).list_map heq

/-- The first frame is that of the name at the start. -/
theorem Leads.cons_iff (hg : g.Indexed) {name last : String} {v : Vertex R}
    {vs : List (Vertex R)} :
    g.Leads reference name (v :: vs) last ↔
      g.vertex? name = some v ∧
        ∃ next, reference v = some next ∧ g.Leads reference next vs last := by
  constructor
  · rintro ⟨htrail, hmem⟩
    obtain ⟨hv, hvs⟩ := List.forall_mem_cons.mp hmem
    obtain rfl := htrail.head_eq
    cases htrail with
    | @cons _ next _ _ hnext htrail =>
      rw [follow_name hg hv] at hnext
      exact ⟨hg.vertex?_name hv, next, hnext, htrail, hvs⟩
  · rintro ⟨hv, next, hnext, htrail, hvs⟩
    obtain ⟨hmem, rfl⟩ := hg.vertex?_eq_some_iff.mp hv
    refine ⟨.cons ?_ htrail, List.forall_mem_cons.mpr ⟨hmem, hvs⟩⟩
    rw [follow_name hg hmem, hnext]

/-- Every frame that is passed has a reference. -/
theorem Leads.exists_reference (hg : g.Indexed) {name last : String} {vs : List (Vertex R)}
    (h : g.Leads reference name vs last) {v : Vertex R} (hv : v ∈ vs) :
    ∃ next, reference v = some next := by
  obtain ⟨next, hnext⟩ := h.1.exists_next (List.mem_map_of_mem hv)
  rw [follow_name hg (h.2 v hv)] at hnext
  exact ⟨next, hnext⟩

/-- References can be followed as far as any frame on the way. -/
theorem Leads.split {name last : String} {vs : List (Vertex R)}
    (h : g.Leads reference name vs last) {v : Vertex R} (hv : v ∈ vs) :
    ∃ us ws, vs = us ++ v :: ws ∧ g.Leads reference name us v.name ∧
      Trail (g.follow reference) v.name ((v :: ws).map Vertex.name) last := by
  obtain ⟨us, ws, rfl⟩ := List.append_of_mem hv
  obtain ⟨htrail, hmem⟩ := h
  rw [List.map_append] at htrail
  obtain ⟨mid, hus, hws⟩ := htrail.of_append
  obtain rfl := hws.head_eq
  exact ⟨us, ws, rfl, ⟨hus, fun u hu => hmem u (List.mem_append_left _ hu)⟩, hws⟩

/-! ### Exactly one course -/

/-- The frames on the way of a course. -/
def Course.through : Course R → List (Vertex R)
  | .rests vs _ => vs
  | .lost vs _ => vs
  | .returns vs _ => vs

/-- The name at which a course ends. -/
def Course.last : Course R → String
  | .rests _ v => v.name
  | .lost _ last => last
  | .returns _ last => last

/-- Whether a course comes back. -/
def Course.isReturn : Course R → Bool
  | .returns _ _ => true
  | _ => false

/-- A course passes frames that lead from one to the next. -/
theorem Takes.leads {name : String} {c : Course R} (h : g.Takes reference name c) :
    g.Leads reference name c.through c.last := by
  cases c with
  | rests => exact h.1
  | lost => exact h.1
  | returns => exact h.1

/-- A course that does not return ends where nothing can be followed. -/
theorem Takes.end_of_not_isReturn (hg : g.Indexed) {name : String} {c : Course R}
    (h : g.Takes reference name c) (hc : c.isReturn = false) :
    g.follow reference c.last = none := by
  cases c with
  | rests vs v => exact (follow_name hg h.2.1).trans h.2.2
  | lost vs last => exact follow_eq_none_of_missing h.2
  | returns vs last => cases hc

/-- A course that returns passes no frame twice, and ends at one that it has
passed. -/
theorem Takes.return_of_isReturn {name : String} {c : Course R} (h : g.Takes reference name c)
    (hc : c.isReturn = true) :
    (c.through.map Vertex.name).Nodup ∧ c.last ∈ c.through.map Vertex.name := by
  cases c with
  | rests => cases hc
  | lost => cases hc
  | returns vs last => exact h.2

/-- From one name, courses go the same way and all come back or all do not. -/
theorem Takes.same_way (hg : g.Indexed) {name : String} {c c' : Course R}
    (h : g.Takes reference name c) (h' : g.Takes reference name c') :
    c.through = c'.through ∧ c.last = c'.last ∧ c.isReturn = c'.isReturn := by
  have htrail := h.leads.1
  have htrail' := h'.leads.1
  -- names determine the frames on the way, so trails of names are enough
  have key (heq : c.through.map Vertex.name = c'.through.map Vertex.name) :
      c.through = c'.through := eq_of_map_name_eq hg h.leads.2 h'.leads.2 heq
  cases hc : c.isReturn with
  | false =>
    have hend := h.end_of_not_isReturn hg hc
    cases hc' : c'.isReturn with
    -- two ends, or two returns: the trails are the same
    | false =>
      obtain ⟨heq, hlast⟩ := htrail.unique_of_end htrail' hend (h'.end_of_not_isReturn hg hc')
      exact ⟨key heq, hlast, rfl⟩
    -- one that ends does not come back
    | true => exact absurd (h'.return_of_isReturn hc').2 (htrail.not_mem_of_end hend htrail')
  | true =>
    obtain ⟨hnodup, hmem⟩ := h.return_of_isReturn hc
    cases hc' : c'.isReturn with
    | false =>
      exact absurd hmem (htrail'.not_mem_of_end (h'.end_of_not_isReturn hg hc') htrail)
    | true =>
      obtain ⟨hnodup', hmem'⟩ := h'.return_of_isReturn hc'
      obtain ⟨heq, hlast⟩ := htrail.unique_of_return htrail' hmem hmem' hnodup hnodup'
      exact ⟨key heq, hlast, rfl⟩

/-- From a name there is at most one course. -/
theorem Takes.unique (hg : g.Indexed) {name : String} {c c' : Course R}
    (h : g.Takes reference name c) (h' : g.Takes reference name c') : c = c' := by
  -- what is left to tell is a rest from a loss: the last name has a frame or it has none
  obtain ⟨hthrough, hlast, hreturn⟩ := h.same_way hg h'
  cases c with
  | rests vs v =>
    have hv := hg.vertex?_name h.2.1
    cases c' with
    | rests vs' v' =>
      have hv' := hg.vertex?_name h'.2.1
      simp only [Course.through, Course.last] at hthrough hlast
      rw [hlast, hv'] at hv
      rw [hthrough, Option.some.inj hv]
    | lost vs' last' =>
      simp only [Course.last] at hlast
      rw [hlast, h'.2] at hv
      cases hv
    | returns => cases hreturn
  | lost vs last =>
    cases c' with
    | rests vs' v' =>
      have hv' := hg.vertex?_name h'.2.1
      simp only [Course.last] at hlast
      rw [← hlast, h.2] at hv'
      cases hv'
    | lost vs' last' =>
      simp only [Course.through, Course.last] at hthrough hlast
      rw [hthrough, hlast]
    | returns => cases hreturn
  | returns vs last =>
    cases c' with
    | rests => cases hreturn
    | lost => cases hreturn
    | returns vs' last' =>
      simp only [Course.through, Course.last] at hthrough hlast
      rw [hthrough, hlast]

/-! ### Walks take courses -/

/-- The frames at positions. -/
def verticesAt (g : FrameGraph R) (is : List (Fin g.vertices.size)) : List (Vertex R) :=
  is.map g.vertexAt

@[simp] theorem verticesAt_nil : g.verticesAt [] = [] := rfl

@[simp] theorem verticesAt_cons (i : Fin g.vertices.size) (is : List (Fin g.vertices.size)) :
    g.verticesAt (i :: is) = g.vertexAt i :: g.verticesAt is := rfl

@[simp] theorem verticesAt_append (is js : List (Fin g.vertices.size)) :
    g.verticesAt (is ++ js) = g.verticesAt is ++ g.verticesAt js := List.map_append

@[simp] theorem map_name_verticesAt (is : List (Fin g.vertices.size)) :
    (g.verticesAt is).map Vertex.name = g.namesAt is := by
  simp [verticesAt, namesAt, nameAt]

/-- The frame at a position is found by its name. -/
theorem vertex?_nameAt (hg : g.Indexed) (i : Fin g.vertices.size) :
    g.vertex? (g.nameAt i) = some (g.vertexAt i) := by
  rw [vertex?, hg.position?_nameAt, Option.map_some]

/-- A frame without a reference is the last one. -/
theorem stepBy_of_none {i : Fin g.vertices.size} (h : reference (g.vertexAt i) = none) :
    g.stepBy reference i = .stop := by
  rw [stepBy, h]

/-- A reference to a name without a frame is lost. -/
theorem stepBy_of_missing {i : Fin g.vertices.size} {name : String}
    (h : reference (g.vertexAt i) = some name) (hname : g.vertex? name = none) :
    g.stepBy reference i = .missing name := by
  simp only [stepBy, h, vertex?_eq_none_iff.mp hname]

/-- A reference to the name of a frame leads to its position. -/
theorem stepBy_of_nameAt (hg : g.Indexed) {i j : Fin g.vertices.size}
    (h : reference (g.vertexAt i) = some (g.nameAt j)) : g.stepBy reference i = .to j := by
  simp only [stepBy, h, hg.position?_nameAt j]

/-- What a step says about the reference it follows. -/
theorem reference_of_stepBy (hg : g.Indexed) (reference : Vertex R → Option String)
    (i : Fin g.vertices.size) :
    match g.stepBy reference i with
    | .stop => reference (g.vertexAt i) = none
    | .missing name => reference (g.vertexAt i) = some name ∧ g.vertex? name = none
    | .to j => reference (g.vertexAt i) = some (g.nameAt j) := by
  rcases h : reference (g.vertexAt i) with - | name
  · simp only [stepBy_of_none h]
  · rcases hp : g.position? name with - | j
    · rw [← vertex?_eq_none_iff] at hp
      simp only [stepBy_of_missing h hp, hp, and_self]
    · rw [hg.position?_eq_some_iff] at hp
      subst hp
      simp only [stepBy_of_nameAt hg h]

/-- A walk stops only at a frame without a reference. -/
theorem reference_of_stop (hg : g.Indexed) {i : Fin g.vertices.size}
    (h : g.stepBy reference i = .stop) : reference (g.vertexAt i) = none := by
  have := reference_of_stepBy hg reference i
  rwa [h] at this

/-- A walk is lost only at a reference to a name without a frame. -/
theorem reference_of_missing (hg : g.Indexed) {i : Fin g.vertices.size} {name : String}
    (h : g.stepBy reference i = .missing name) :
    reference (g.vertexAt i) = some name ∧ g.vertex? name = none := by
  have := reference_of_stepBy hg reference i
  rwa [h] at this

/-- A walk goes on only along a reference. -/
theorem reference_of_to (hg : g.Indexed) {i j : Fin g.vertices.size}
    (h : g.stepBy reference i = .to j) : reference (g.vertexAt i) = some (g.nameAt j) := by
  have := reference_of_stepBy hg reference i
  rwa [h] at this

/-- Frames at positions are frames of the graph. -/
theorem mem_verticesAt {v : Vertex R} {is : List (Fin g.vertices.size)}
    (h : v ∈ g.verticesAt is) : v ∈ g.vertices := by
  obtain ⟨i, -, rfl⟩ := List.mem_map.mp h
  exact Array.getElem_mem i.isLt

/-- A step to a position follows the name of it. -/
theorem follow_nameAt (hg : g.Indexed) {i j : Fin g.vertices.size}
    (h : following (g.stepBy reference) i = some j) :
    g.follow reference (g.nameAt i) = some (g.nameAt j) := by
  rw [follow, vertex?_nameAt hg, Option.bind_some]
  exact reference_of_to hg (following_eq_some_iff.mp h)

/-- A trail of positions, by name. -/
theorem leads_of_trail (hg : g.Indexed) {i k : Fin g.vertices.size}
    {js : List (Fin g.vertices.size)} (h : Trail (following (g.stepBy reference)) i js k) :
    g.Leads reference (g.nameAt i) (g.verticesAt js) (g.nameAt k) := by
  refine ⟨?_, fun v hv => mem_verticesAt hv⟩
  rw [map_name_verticesAt]
  exact h.map g.nameAt fun _ _ => follow_nameAt hg

/-- What a walk over positions is by name. -/
theorem walk_cases (hg : g.Indexed) (reference : Vertex R → Option String)
    (start : Fin g.vertices.size) :
    (∃ js k, walk (g.stepBy reference) [] start = ⟨js ++ [k], .stopped⟩ ∧
      g.Takes reference (g.nameAt start) (.rests (g.verticesAt js) (g.vertexAt k))) ∨
    (∃ js k name, walk (g.stepBy reference) [] start = ⟨js ++ [k], .missing k name⟩ ∧
      g.Takes reference (g.nameAt start) (.lost (g.verticesAt (js ++ [k])) name)) ∨
    ∃ js k, walk (g.stepBy reference) [] start = ⟨js, .back k⟩ ∧
      g.Takes reference (g.nameAt start) (.returns (g.verticesAt js) (g.nameAt k)) := by
  -- with nothing settled, `explore` cannot end at something known
  rw [walk_eq_explore]
  have hnodup := (nodup_trail_explore (g.stepBy reference) [] [] start).1
  generalize hw : explore (g.stepBy reference) [] [] start = w at hnodup
  cases hw ▸ explores_explore (g.stepBy reference) [] [] start with
  | @stopped js k htrail hk =>
    exact .inl ⟨js, k, rfl, leads_of_trail hg htrail, Array.getElem_mem k.isLt,
      reference_of_stop hg hk⟩
  | @missing js k name htrail hk =>
    obtain ⟨href, hmiss⟩ := reference_of_missing hg hk
    refine .inr (.inl ⟨js, k, name, rfl, ⟨?_, fun v hv => mem_verticesAt hv⟩, hmiss⟩)
    -- the missing name comes one step after the last frame
    have hlast : g.follow reference (g.nameAt k) = some name := by
      rw [follow, vertex?_nameAt hg, Option.bind_some, href]
    rw [verticesAt_append, List.map_append]
    exact (leads_of_trail hg htrail).1.append (.single hlast)
  | @back js k htrail hk =>
    -- positions on the trail differ, and names tell them apart
    refine .inr (.inr ⟨js, k, rfl, leads_of_trail hg htrail, ?_, ?_⟩)
    · rw [map_name_verticesAt]
      exact hnodup.map hg.nameAt_injective
    · rw [map_name_verticesAt]
      exact List.mem_map_of_mem (by simpa using hk)
  | known _ hk => cases hk

/-- From a name without a frame the course is lost at once. -/
theorem takes_lost_nil {name : String} (h : g.vertex? name = none) :
    g.Takes reference name (.lost [] name) := ⟨⟨.nil name, by simp⟩, h⟩

/-- From every name there is a course. -/
theorem exists_takes (hg : g.Indexed) (reference : Vertex R → Option String) (name : String) :
    ∃ c, g.Takes reference name c := by
  rcases hv : g.position? name with - | start
  · exact ⟨_, takes_lost_nil (vertex?_eq_none_iff.mpr hv)⟩
  · rw [hg.position?_eq_some_iff] at hv
    subst hv
    obtain ⟨js, k, -, h⟩ | ⟨js, k, _, -, h⟩ | ⟨js, k, -, h⟩ := walk_cases hg reference start
    · exact ⟨_, h⟩
    · exact ⟨_, h⟩
    · exact ⟨_, h⟩

end Scene.FrameGraph
