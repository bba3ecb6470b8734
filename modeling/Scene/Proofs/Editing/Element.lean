/-
Elements under construction.

A new element has its tag and nothing else.  Then attributes are set, children are
added and texts are written, in any order and any number of times.  It makes no
difference whether that is done to an element that stands or to one that is handed
from call to call.

An attribute whose name is new comes last, and one that is set again gets another
value in the place that it has (`putAttribute_cases`).  So the names stand in the
order in which they were first set, each with the value that it was set to last, and
no name comes twice.  The last is also true of elements that were read, and it is
what a reader asks of attributes.  So a tree of such elements, its names and texts
permitting, is read back from what is written of it (`Made.ofDocument_toDocument`).

Main statement: `attributes_of_edits`.
-/
import Scene.Proofs.Firsts
import Scene.Proofs.Markup.Reproduced
import Scene.Proofs.Writing.Field

namespace Scene.Element

/-! ### Setting an attribute -/

/-- An attribute that is set comes last if its name is new, and else takes the place
of the first one of its name. -/
theorem putAttribute_cases (name value : String) (attributes : List (String × String)) :
    (name ∉ attributes.map Prod.fst ∧
      putAttribute name value attributes = attributes ++ [(name, value)]) ∨
    ∃ before old after, attributes = before ++ (name, old) :: after ∧
      name ∉ before.map Prod.fst ∧
      putAttribute name value attributes = before ++ (name, value) :: after := by
  by_cases hmem : name ∈ attributes.map Prod.fst
  -- by the place of the first attribute of that name
  · right
    induction attributes with
    | nil => exact absurd hmem List.not_mem_nil
    | cons a attributes ih =>
      by_cases ha : a.1 = name
      · subst ha
        exact ⟨[], a.2, attributes, rfl, List.not_mem_nil, by simp [putAttribute]⟩
      · rw [List.map_cons, List.mem_cons, or_iff_right (Ne.symm ha)] at hmem
        obtain ⟨before, old, after, rfl, hfirst, hput⟩ := ih hmem
        refine ⟨a :: before, old, after, rfl, ?_, ?_⟩
        · rw [List.map_cons, List.mem_cons, not_or]
          exact ⟨Ne.symm ha, hfirst⟩
        · rw [putAttribute, hput]
          simp [ha]
  · exact .inl ⟨hmem, putAttribute_eq_append hmem value⟩

/-- Names stay where they are, and a new one comes last. -/
theorem names_putAttribute (name value : String) (attributes : List (String × String)) :
    (putAttribute name value attributes).map Prod.fst =
      if name ∈ attributes.map Prod.fst then attributes.map Prod.fst
      else attributes.map Prod.fst ++ [name] := by
  obtain ⟨hnew, hput⟩ | ⟨before, old, after, rfl, -, hput⟩ :=
    putAttribute_cases name value attributes
  · rw [hput, if_neg hnew, List.map_append, List.map_singleton]
  · rw [hput, if_pos (by simp)]
    simp

/-- Names that differ still do when an attribute is set. -/
theorem nodup_putAttribute {attributes : List (String × String)}
    (h : (attributes.map Prod.fst).Nodup) (name value : String) :
    ((putAttribute name value attributes).map Prod.fst).Nodup := by
  rw [names_putAttribute]
  split
  · exact h
  · next hnew =>
    rw [← List.concat_eq_append]
    exact h.concat hnew

/-- The first of several attributes is the one that is found, or the others count. -/
theorem lookup_cons_eq_ite (name : String) (a : String × String)
    (attributes : List (String × String)) :
    (a :: attributes).lookup name = if name = a.1 then some a.2 else attributes.lookup name := by
  rw [List.lookup_cons]
  by_cases h : name = a.1
  · rw [beq_iff_eq.mpr h, if_pos h]
  · rw [beq_false_of_ne h, if_neg h]

theorem attribute?_eq_lookup (e : Element) (name : String) :
    e.attribute? name = e.attributes.lookup name := by
  rw [attribute?]
  induction e.attributes with
  | nil => rfl
  | cons a attributes ih =>
    rw [lookup_cons_eq_ite, ← ih]
    by_cases ha : a.1 = name
    · rw [List.find?_cons_of_pos (by simpa using ha), if_pos ha.symm, Option.map_some]
    · rw [List.find?_cons_of_neg (by simpa using ha), if_neg (Ne.symm ha)]

/-- What an attribute is set to is found, and other ones are found as before. -/
theorem lookup_putAttribute (name value other : String) (attributes : List (String × String)) :
    (putAttribute name value attributes).lookup other =
      if other = name then some value else attributes.lookup other := by
  induction attributes with
  | nil => rw [putAttribute, lookup_cons_eq_ite]
  | cons a attributes ih =>
    rw [putAttribute, lookup_cons_eq_ite]
    by_cases ha : a.1 = name
    -- the first of the name is the one that is found, before and after
    · subst ha
      rw [if_pos (beq_self_eq_true _), lookup_cons_eq_ite]
      split
      · rfl
      · rfl
    · rw [if_neg (by simpa using ha), lookup_cons_eq_ite, ih]
      by_cases hother : other = a.1
      · rw [if_pos hother, if_pos hother, if_neg (hother ▸ ha)]
      · rw [if_neg hother, if_neg hother]

theorem attribute?_setAttribute (e : Element) (name value other : String) :
    (e.setAttribute name value).attribute? other =
      if other = name then some value else e.attribute? other := by
  rw [attribute?_eq_lookup, attribute?_eq_lookup, attributes_setAttribute, lookup_putAttribute]

/-- If names differ, the attributes are what can be found. -/
theorem mem_attributes_iff {e : Element} (h : (e.attributes.map Prod.fst).Nodup)
    {name value : String} : (name, value) ∈ e.attributes ↔ e.attribute? name = some value := by
  rw [attribute?_eq_lookup, List.lookup_eq_some_iff]
  constructor
  · intro hmem
    -- no attribute before it has the name, so it is the one that is found
    obtain ⟨before, after, heq⟩ := List.append_of_mem hmem
    rw [heq, List.map_append, List.map_cons, List.nodup_append] at h
    refine ⟨before, after, heq, fun a ha => bne_iff_ne.mpr ?_⟩
    exact (h.2.2 a.1 (List.mem_map_of_mem ha) name List.mem_cons_self).symm
  · rintro ⟨before, after, heq, -⟩
    rw [heq]
    exact List.mem_append_right _ List.mem_cons_self

/-! ### Setting several attributes -/

/-- The attributes after several were set, from none on. -/
def putAll (calls : List (String × String)) : List (String × String) :=
  calls.foldl (fun attributes a => putAttribute a.1 a.2 attributes) []

theorem putAll_concat (calls : List (String × String)) (a : String × String) :
    putAll (calls ++ [a]) = putAttribute a.1 a.2 (putAll calls) := by
  rw [putAll, List.foldl_append]
  rfl

/-- The names stand in the order in which they were first set. -/
theorem names_putAll (calls : List (String × String)) :
    (putAll calls).map Prod.fst = (firsts Prod.fst calls).map Prod.fst := by
  -- from the end, since a name is new or not among those that were set before
  induction calls using List.reverseRecOn with
  | nil => rfl
  | append_singleton calls a ih =>
    rw [putAll_concat, names_putAttribute, ih, firsts_concat]
    simp only [mem_map_firsts]
    split
    · rfl
    · rw [List.map_append, List.map_singleton]

/-- An attribute has the value that it was set to last. -/
theorem lookup_putAll (calls : List (String × String)) (name : String) :
    (putAll calls).lookup name = calls.reverse.lookup name := by
  -- the last call decides, or those before it do
  induction calls using List.reverseRecOn with
  | nil => rfl
  | append_singleton calls a ih =>
    rw [putAll_concat, lookup_putAttribute, ih, List.reverse_append, List.reverse_singleton,
      List.singleton_append, lookup_cons_eq_ite]

/-! ### Edits -/

/-- What can be done to an element. -/
inductive Edit
  | set (name value : String)
  | push (child : Element)
  | write (text : String)

namespace Edit

/-- The attribute that is set. -/
def attribute? : Edit → Option (String × String)
  | .set name value => some (name, value)
  | .push _ | .write _ => none

/-- The child that is added. -/
def child? : Edit → Option Element
  | .push child => some child
  | .set .. | .write _ => none

/-- The text that is written. -/
def text? : Edit → Option String
  | .write text => some text
  | .set .. | .push _ => none

end Edit

/-- The element after an edit. -/
def edit (e : Element) : Edit → Element
  | .set name value => e.setAttribute name value
  | .push child => e.push child
  | .write text => { e with text := some text }

/-- The element after edits. -/
def editAll (e : Element) (edits : List Edit) : Element := edits.foldl edit e

/-- Each part of an element is made by the edits that are meant for it. -/
theorem editAll_ofTag (tag : String) (edits : List Edit) : (ofTag tag).editAll edits =
    { tag
      attributes := putAll (edits.filterMap Edit.attribute?)
      text := (edits.filterMap Edit.text?).getLast?
      children := edits.filterMap Edit.child? } := by
  induction edits using List.reverseRecOn with
  | nil => rfl
  | append_singleton edits x ih =>
    have hstep : (ofTag tag).editAll (edits ++ [x]) = ((ofTag tag).editAll edits).edit x := by
      rw [editAll, List.foldl_append]
      rfl
    rw [hstep, ih]
    -- an edit is meant for one part, and adds nothing to the rows of the others
    simp only [List.filterMap_append, List.filterMap_cons, List.filterMap_nil]
    cases x with
    | set name value =>
      simp only [Edit.attribute?, Edit.text?, Edit.child?, List.append_nil, putAll_concat]
      rfl
    | push child =>
      simp only [Edit.attribute?, Edit.text?, Edit.child?, List.append_nil]
      rfl
    | write text =>
      simp only [Edit.attribute?, Edit.text?, Edit.child?, List.append_nil, List.getLast?_concat]
      rfl

/-- **Attributes after any edits of a new element.**  Their names differ, and stand in
the order in which they were first set.  An attribute has the value that it was set
to last, and there is none that was never set.  Children and text are what was added
and written, whatever was set in between.  And when an attribute is set next, it comes
last if its name is new, and else only its value changes, in its place: no other
attribute is found changed, and tag, text and children are as they were. -/
theorem attributes_of_edits (tag : String) (edits : List Edit) :
    let e := (ofTag tag).editAll edits
    let calls := edits.filterMap Edit.attribute?
    (e.attributes.map Prod.fst).Nodup ∧
    e.attributes.map Prod.fst = (firsts Prod.fst calls).map Prod.fst ∧
    (∀ name, e.attribute? name = calls.reverse.lookup name) ∧
    (∀ name value, (name, value) ∈ e.attributes ↔ e.attribute? name = some value) ∧
    e.tag = tag ∧
    e.text = (edits.filterMap Edit.text?).getLast? ∧
    e.children = edits.filterMap Edit.child? ∧
    ∀ name value,
      let e' := e.setAttribute name value
      ((name ∉ e.attributes.map Prod.fst ∧ e'.attributes = e.attributes ++ [(name, value)]) ∨
        ∃ before old after, e.attributes = before ++ (name, old) :: after ∧
          e'.attributes = before ++ (name, value) :: after) ∧
      (∀ other, e'.attribute? other = if other = name then some value else e.attribute? other) ∧
      e'.tag = e.tag ∧ e'.text = e.text ∧ e'.children = e.children := by
  intro e calls
  have heq := editAll_ofTag tag edits
  have hattributes : e.attributes = putAll calls := congrArg Element.attributes heq
  have hnames : e.attributes.map Prod.fst = (firsts Prod.fst calls).map Prod.fst := by
    rw [hattributes, names_putAll]
  have hnodup : (e.attributes.map Prod.fst).Nodup := by
    rw [hnames]
    exact nodup_map_firsts Prod.fst calls
  refine ⟨hnodup, hnames, ?_, fun name value => mem_attributes_iff hnodup,
    congrArg Element.tag heq, congrArg Element.text heq, congrArg Element.children heq, ?_⟩
  · intro name
    rw [attribute?_eq_lookup, hattributes, lookup_putAll]
  · intro name value e'
    refine ⟨?_, attribute?_setAttribute e name value, rfl, rfl, rfl⟩
    obtain hnew | ⟨before, old, after, hplace, -, hput⟩ :=
      putAttribute_cases name value e.attributes
    · exact .inl hnew
    · exact .inr ⟨before, old, after, hplace, hput⟩

/-- An attribute that is set again keeps its place, whatever is done in between. -/
example (tag text : String) (c : Element) :
    ((ofTag tag).editAll [.set "name" "a", .write text, .set "type" "point", .push c,
      .set "name" "b"]).attributes = [("name", "b"), ("type", "point")] := by
  rfl

/-! ### Trees -/

/-- Trees as they come about: an element is new or was read, and then edited. -/
inductive Made : Element → Prop
  | new (tag : String) : Made (ofTag tag)
  | read {document : String} {e : Element} : ofDocument document = .ok e → Made e
  | set {e : Element} (name value : String) : Made e → Made (e.setAttribute name value)
  | push {e c : Element} : Made e → Made c → Made (e.push c)
  | write {e : Element} (text : String) : Made e → Made { e with text := some text }

/-- However a tree came about, the attributes of each of its elements differ. -/
theorem Made.distinct {e : Element} (h : e.Made) : e.Throughout HasDistinctAttributes := by
  -- what is read has such attributes, and every edit keeps them
  induction h with
  | new tag => exact Markup.distinct_without_children tag [] List.nodup_nil
  | read h => exact Markup.distinct_of_readDocument (readDocument_of_ofDocument h)
  | set name value _ ih => exact ⟨_, nodup_putAttribute ih.here name value, fun _ => ih.child⟩
  | push _ _ ih ihc => exact Markup.kept_distinctAttributes.push ih ihc
  | write text _ ih => exact ⟨_, ih.here, fun _ => ih.child⟩

/-- So it is read back if its names are ordinary and its texts are tidy. -/
theorem Made.ofDocument_toDocument {e : Element} (h : e.Made)
    (hnames : e.Throughout HasOrdinaryNames) (htidy : e.Tidy) :
    ofDocument e.toDocument = .ok e :=
  Element.ofDocument_toDocument hnames h.distinct htidy

end Scene.Element
