/-
The frames of a graph that was made by attempts.

Attempts to add frames to a graph are made one after the other, and one whose
name is taken is refused.  The frames then lie in the arena in the order in which
they were tried, each name with the first frame that had it, and behind the frame
of the scope.  The refused attempts have left no trace, not even in the index: the
graph is the one that the others alone would have made.

That the index and the arena describe each other is kept by one attempt
(`Indexed.afterAdd`), and so by all of them.

Main statement: `arena_of_attempts`.
-/
import Scene.Proofs.Firsts
import Scene.Proofs.Frames.Extension

namespace Scene.FrameGraph

variable {R : Type}

/-! ### Graphs that hold a scope -/

/-- The ways to make a graph of a scope that holds nothing. -/
inductive Origin where
  | ofName (name : String)
  | world
  | model (canonical : String)
  | default
deriving DecidableEq, Repr

namespace Origin

variable [OfNat R 0] [OfNat R 1]

/-- The graph that is made. -/
def graph : Origin → FrameGraph R
  | ofName name => .ofName name
  | world => .world
  | model canonical => .model canonical
  | default => Inhabited.default

/-- The frame of its scope. -/
def scope : Origin → Vertex R
  | ofName name => { name, kind := .scope, pose := .identity }
  | world | default => { name := worldFrame, kind := .scope, pose := .identity }
  | model canonical =>
    { name := modelFrame, kind := .scope, pose := .identity, attachedTo := canonical }

/-- A new graph has nothing but its scope. -/
theorem graph_eq (o : Origin) : (o.graph : FrameGraph R) = ofScope o.scope := by
  cases o with
  | ofName name => rfl
  | world => rfl
  | model canonical => rfl
  | default => rfl

/-- The first frame of a new graph is a scope, in whichever way it was made. -/
theorem kind_scope (o : Origin) : (o.scope : Vertex R).kind = .scope := by
  cases o with
  | ofName name => rfl
  | world => rfl
  | model canonical => rfl
  | default => rfl

end Origin

/-! ### Several attempts -/

/-- The graph after attempts to add several frames. -/
def afterAdds (g : FrameGraph R) (vs : List (Vertex R)) : FrameGraph R := vs.foldl afterAdd g

/-- The frames whose attempts succeed. -/
def added (g : FrameGraph R) : List (Vertex R) → List (Vertex R)
  | [] => []
  | v :: vs =>
    match g.add v with
    | .ok h => v :: h.added vs
    | .error _ => g.added vs

/-- The index stays sound through any attempts, refused ones included. -/
theorem Indexed.afterAdds {g : FrameGraph R} (hg : g.Indexed) (vs : List (Vertex R)) :
    (g.afterAdds vs).Indexed := by
  induction vs generalizing g with
  | nil => exact hg
  | cons v vs ih => exact ih (hg.afterAdd v)

/-- A name is taken if a frame has it. -/
theorem Indexed.contains_iff_mem {g : FrameGraph R} (hg : g.Indexed) {name : String} :
    g.contains name = true ↔ name ∈ g.vertices.toList.map Vertex.name := by
  simp only [hg.contains_iff, hg.vertex?_eq_some_iff, List.mem_map, Array.mem_toList_iff]

/-- What succeeds is put behind the frames that are there. -/
theorem toList_afterAdds (g : FrameGraph R) (vs : List (Vertex R)) :
    (g.afterAdds vs).vertices.toList = g.vertices.toList ++ g.added vs := by
  induction vs generalizing g with
  | nil => exact (List.append_nil _).symm
  | cons v vs ih =>
    show ((g.afterAdd v).afterAdds vs).vertices.toList = _
    rw [ih, added]
    -- either the attempt is refused and drops out, or its frame comes before all later ones
    obtain ⟨-, hadd, heq⟩ | ⟨-, hadd⟩ := afterAdd_cases g v
    · rw [hadd, heq]
    · rw [hadd, (add_eq_ok_iff.mp hadd).2, Array.toList_push, List.append_assoc]
      rfl

/-- Whether an attempt succeeds depends on those before it that did. -/
theorem afterAdds_added (g : FrameGraph R) (vs : List (Vertex R)) :
    g.afterAdds (g.added vs) = g.afterAdds vs := by
  induction vs generalizing g with
  | nil => rfl
  | cons v vs ih =>
    show g.afterAdds (g.added (v :: vs)) = (g.afterAdd v).afterAdds vs
    rw [added]
    obtain ⟨-, hadd, heq⟩ | ⟨-, hadd⟩ := afterAdd_cases g v
    · rw [hadd, heq]
      exact ih g
    · rw [hadd]
      exact ih (g.afterAdd v)

/-- Of each name the first frame is kept. -/
theorem toList_afterAdds_ofScope {scope : Vertex R} (h : scope.kind = .scope)
    (vs : List (Vertex R)) :
    ((ofScope scope).afterAdds vs).vertices.toList = firsts Vertex.name (scope :: vs) := by
  -- from the end, since an attempt is judged by the graph that those before it made
  induction vs using List.reverseRecOn with
  | nil => rfl
  | append_singleton vs v ih =>
    have hg := (indexed_ofScope h).afterAdds vs
    have hstep : (ofScope scope).afterAdds (vs ++ [v]) =
        ((ofScope scope).afterAdds vs).afterAdd v := by
      rw [afterAdds, List.foldl_append]
      rfl
    -- the names in the graph are those that were tried so far, refused or not
    have htaken : ((ofScope scope).afterAdds vs).contains v.name = true ↔
        v.name ∈ (scope :: vs).map Vertex.name := by
      rw [hg.contains_iff_mem, ih, mem_map_firsts]
    rw [hstep, ← List.cons_append, firsts_concat]
    obtain ⟨hcontains, -, heq⟩ | ⟨hcontains, hadd⟩ :=
      afterAdd_cases ((ofScope scope).afterAdds vs) v
    · rw [heq, ih, if_pos (htaken.mp hcontains)]
    · rw [(add_eq_ok_iff.mp hadd).2, Array.toList_push, ih,
        if_neg (by rw [← htaken, hcontains]; simp)]

/-- What is found in the index is a place of the arena. -/
theorem Indexed.position?_eq {g : FrameGraph R} (hg : g.Indexed) (name : String) :
    (g.position? name).map Fin.val = g.index[name]? := by
  unfold position?
  cases hi : g.index[name]? with
  | none => rfl
  | some i =>
    obtain ⟨v, hv, -⟩ := (hg.index_iff name i).mp hi
    obtain ⟨hlt, -⟩ := Array.getElem?_eq_some_iff.mp hv
    simp [hlt]

/-- **The arena and its index after any attempts.**  A name is indexed with a
position exactly if the frame there has it.  So names differ, and what is looked
up lies within the arena.  The frame of the scope stays in front, as it was made,
and behind it stand the frames whose attempts succeeded, in order and as they
were given, which are the first ones of each name; there is one more frame than
there were such attempts.  The refused ones could as well not have been made.  One
more attempt is refused, and changes nothing, or its name is new, and its frame
comes last. -/
theorem arena_of_attempts [OfNat R 0] [OfNat R 1] (o : Origin) (vs : List (Vertex R)) :
    let g : FrameGraph R := o.graph.afterAdds vs
    (∀ name i, g.index[name]? = some i ↔
      ∃ v : Vertex R, g.vertices[i]? = some v ∧ v.name = name) ∧
    (g.vertices.toList.map Vertex.name).Nodup ∧
    (∀ name, (g.position? name).map Fin.val = g.index[name]?) ∧
    g.vertices[0]? = some o.scope ∧
    g.vertices.toList = o.scope :: o.graph.added vs ∧
    g.vertices.toList = firsts Vertex.name (o.scope :: vs) ∧
    g.size = (o.graph.added vs).length + 1 ∧
    o.graph.afterAdds (o.graph.added vs) = g ∧
    ∀ v, (v.name ∈ g.vertices.toList.map Vertex.name ∧
        g.add v = .error (.frameNameTaken v.name (o.scope : Vertex R).name) ∧
        g.afterAdd v = g) ∨
      (v.name ∉ g.vertices.toList.map Vertex.name ∧ g.add v = .ok (g.afterAdd v) ∧
        (g.afterAdd v).vertices = g.vertices.push v) := by
  intro g
  have hg : g.Indexed := by
    show (o.graph.afterAdds vs).Indexed
    rw [o.graph_eq]
    exact (indexed_ofScope o.kind_scope).afterAdds vs
  have hkept : g.vertices.toList = o.scope :: o.graph.added vs := by
    show (o.graph.afterAdds vs).vertices.toList = _
    rw [toList_afterAdds, o.graph_eq]
    rfl
  have hfirsts : g.vertices.toList = firsts Vertex.name (o.scope :: vs) := by
    show (o.graph.afterAdds vs).vertices.toList = _
    rw [o.graph_eq, toList_afterAdds_ofScope o.kind_scope]
  have hfront : g.vertices[0]? = some o.scope := by
    rw [← Array.getElem?_toList, hkept]
    rfl
  have hscope : g.scopeName = (o.scope : Vertex R).name := by
    rw [scopeName, hfront]
    rfl
  refine ⟨hg.index_iff, ?_, hg.position?_eq, hfront, hkept, hfirsts, ?_,
    afterAdds_added _ vs, ?_⟩
  · rw [hfirsts]
    exact nodup_map_firsts _ _
  · rw [size, ← Array.length_toList, hkept, List.length_cons]
  · intro v
    obtain ⟨hcontains, hadd, heq⟩ | ⟨hcontains, hadd⟩ := afterAdd_cases g v
    · exact .inl ⟨hg.contains_iff_mem.mp hcontains, hscope ▸ hadd, heq⟩
    · refine .inr ⟨?_, hadd, ?_⟩
      · rw [← hg.contains_iff_mem, hcontains]
        exact Bool.false_ne_true
      · rw [(add_eq_ok_iff.mp hadd).2]

end Scene.FrameGraph
