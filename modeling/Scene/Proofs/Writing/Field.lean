/-
Elements as they are written.

An element that is written holds its children by kind: first those of one tag,
then those of the next, and last the ones that mean nothing.  Such a list of
groups is the *layout* of the element.  It is all that a reader needs to know:
from it follows what is found under a tag, that no child is unknown, and that
the element can be read back as a tree.
-/
import Scene.Proofs.Markup.RoundTrip
import Scene.Proofs.Reading.Field
import Scene.Proofs.Reading.Link
import Scene.Proofs.Rows
import Scene.Proofs.Writing.Value
import Scene.Writing.Field

namespace Scene

open Reported

namespace Element

variable {policy : Policy} {α : Type}

/-! ### Fields -/

/-- A child with a value as its text. -/
def field [Writable α] (tag : String) (value : α) : Element :=
  { tag, text := some (Writable.write value) }

theorem pushValue_eq [Writable α] (e : Element) (tag : String) (value : α) :
    e.pushValue tag value = e.push (field tag value) := rfl

@[simp] theorem tag_field [Writable α] (tag : String) (value : α) :
    (field tag value).tag = tag := rfl

/-- A field of a tidy text can be written. -/
theorem proper_field [Writable α] {tag : String} {value : α} (htag : Markup.IsName tag)
    (h : Text.IsTidy (Writable.write value)) : (field tag value).Proper :=
  proper_text htag (by simp) (by simp) h

/-- A field of a faithful value can be written. -/
theorem proper_faithful [Readable α] [Writable α] [BEq α] {a : α} (h : Faithful a) {tag : String}
    (htag : Markup.IsName tag) : (field tag a).Proper :=
  proper_field htag h.tidy

/-! ### Writing keeps track of children and attributes -/

section

variable (e : Element)

@[simp] theorem tag_ofTag (tag : String) : (ofTag tag).tag = tag := rfl

@[simp] theorem children_ofTag (tag : String) : (ofTag tag).children = [] := rfl

@[simp] theorem attributes_ofTag (tag : String) : (ofTag tag).attributes = [] := rfl

@[simp] theorem text_ofTag (tag : String) : (ofTag tag).text = none := rfl

@[simp] theorem tag_push (c : Element) : (e.push c).tag = e.tag := rfl

@[simp] theorem children_push (c : Element) : (e.push c).children = e.children ++ [c] := rfl

@[simp] theorem attributes_push (c : Element) : (e.push c).attributes = e.attributes := rfl

@[simp] theorem text_push (c : Element) : (e.push c).text = e.text := rfl

@[simp] theorem tag_setAttribute (name value : String) :
    (e.setAttribute name value).tag = e.tag := rfl

@[simp] theorem children_setAttribute (name value : String) :
    (e.setAttribute name value).children = e.children := rfl

@[simp] theorem attributes_setAttribute (name value : String) :
    (e.setAttribute name value).attributes = putAttribute name value e.attributes := rfl

@[simp] theorem text_setAttribute (name value : String) :
    (e.setAttribute name value).text = e.text := rfl

/-- Pushing children one by one appends the row of them. -/
theorem pushAll_eq (cs : List Element) :
    e.pushAll cs = { e with children := e.children ++ cs } := by
  induction cs generalizing e with
  | nil =>
    cases e
    simp [pushAll]
  | cons c cs ih =>
    have h := ih (e.push c)
    simp only [pushAll, List.foldl_cons] at h ⊢
    rw [h]
    simp [push]

@[simp] theorem tag_pushAll (cs : List Element) : (e.pushAll cs).tag = e.tag := by
  rw [pushAll_eq]

@[simp] theorem children_pushAll (cs : List Element) :
    (e.pushAll cs).children = e.children ++ cs := by
  rw [pushAll_eq]

@[simp] theorem attributes_pushAll (cs : List Element) :
    (e.pushAll cs).attributes = e.attributes := by
  rw [pushAll_eq]

@[simp] theorem text_pushAll (cs : List Element) : (e.pushAll cs).text = e.text := by
  rw [pushAll_eq]

/-- An attribute that is only written with a value. -/
def nonempty (name value : String) : List (String × String) :=
  if value = "" then [] else [(name, value)]

/-- An attribute that is written only if it is not empty is one or none. -/
theorem sublist_nonempty (name value : String) :
    ((nonempty name value).map Prod.fst).Sublist [name] := by
  unfold nonempty
  split
  · exact List.nil_sublist _
  · exact .refl _

@[simp] theorem tag_setNonempty (name value : String) :
    (e.setNonempty name value).tag = e.tag := by
  unfold setNonempty
  split <;> rfl

@[simp] theorem children_setNonempty (name value : String) :
    (e.setNonempty name value).children = e.children := by
  unfold setNonempty
  split <;> rfl

@[simp] theorem text_setNonempty (name value : String) :
    (e.setNonempty name value).text = e.text := by
  unfold setNonempty
  split <;> rfl

/-- An attribute that comes after others. -/
theorem putAttribute_eq_append {name : String} {attributes : List (String × String)}
    (h : name ∉ attributes.map Prod.fst) (value : String) :
    putAttribute name value attributes = attributes ++ [(name, value)] := by
  induction attributes with
  | nil => rfl
  | cons a attributes ih =>
    rw [List.map_cons, List.mem_cons, not_or] at h
    rw [putAttribute, ih h.2]
    simp [Ne.symm h.1]

/-- A new attribute is appended, if it is not empty. -/
theorem attributes_setNonempty {name : String} (h : name ∉ e.attributes.map Prod.fst)
    (value : String) :
    (e.setNonempty name value).attributes = e.attributes ++ nonempty name value := by
  unfold setNonempty nonempty
  split
  · simp
  · exact putAttribute_eq_append h value

/-- What is not written is read as empty. -/
theorem getD_attribute?_nonempty {name value : String} {attributes : List (String × String)}
    (h : name ∉ attributes.map Prod.fst) (ha : e.attributes = attributes ++ nonempty name value) :
    (e.attribute? name).getD "" = value := by
  have hnone : attributes.find? (fun a => a.1 == name) = none := by
    simp only [List.find?_eq_none, beq_iff_eq]
    exact fun a ha hname => h (hname ▸ List.mem_map_of_mem ha)
  rw [attribute?, ha, List.find?_append, hnone, Option.none_or, nonempty]
  split
  · next hv => simp [hv]
  · simp

end

/-! ### Conditions -/

/-- A child that is pushed on a condition is a row of one or none. -/
theorem ite_push {c : Prop} [Decidable c] (e x : Element) :
    (if c then e.push x else e) = e.pushAll (if c then [x] else []) := by
  split <;> rfl

theorem ite_push' {c : Prop} [Decidable c] (e x : Element) :
    (if c then e else e.push x) = e.pushAll (if c then [] else [x]) := by
  split <;> rfl

/-- What is written on a condition. -/
theorem forall_mem_ite {c : Prop} [Decidable c] {p : Element → Prop} {x : Element} (h : p x) :
    ∀ y ∈ (if c then [x] else []), p y := by
  split
  · simpa using h
  · simp

theorem forall_mem_ite' {c : Prop} [Decidable c] {p : Element → Prop} {x : Element} (h : p x) :
    ∀ y ∈ (if c then [] else [x]), p y := by
  split
  · simp
  · simpa using h

/-! ### Children by kind -/

/-- The children of an element are these groups, each with its tag, and then
those of unknown tags. -/
structure Grouped (e : Element) (known : List String) (groups : List (String × List Element))
    (unknown : List Element) : Prop where
  children : e.children = groups.flatMap Prod.snd ++ unknown
  tags : ∀ g ∈ groups, g.1 ∈ known ∧ ∀ c ∈ g.2, c.tag = g.1
  nodup : (groups.map Prod.fst).Nodup
  unknown : ∀ u ∈ unknown, u.tag ∉ known

/-- The tag of an element and its attributes.  It has no text. -/
structure Headed (e : Element) (tag : String) (attributes : List (String × String)) : Prop where
  tag : e.tag = tag
  attributes : e.attributes = attributes
  text : e.text = none

/-- An attribute is looked up among those of the head. -/
theorem Headed.attribute? {e : Element} {tag name : String} {attributes : List (String × String)}
    (h : e.Headed tag attributes) :
    e.attribute? name = (attributes.find? fun a => a.1 == name).map Prod.snd := by
  rw [Element.attribute?, h.attributes]

/-- The name in a head is read back, if it is not empty. -/
theorem Headed.gives_readName {e : Element} {tag name : String}
    {attributes : List (String × String)} (h : e.Headed tag (("name", name) :: attributes))
    (hname : name ≠ "") : e.readName.Gives policy (some name) :=
  Element.gives_readName.mpr ⟨name, h.attribute?, hname, rfl⟩

/-- The name of a frame in a head is read back, if it is not reserved. -/
theorem Headed.gives_readFrameName {e : Element} {tag name : String}
    {attributes : List (String × String)} (h : e.Headed tag (("name", name) :: attributes))
    (hname : IsFrameName name) : e.readFrameName.Gives policy (some name) :=
  Element.gives_readFrameName.mpr ⟨name, h.attribute?, hname, rfl⟩

theorem Headed.value_readName {e : Element} {tag name : String}
    {attributes : List (String × String)} (h : e.Headed tag (("name", name) :: attributes))
    (hname : name ≠ "") : e.readName.value = some name := by
  have hgives : e.readName.Gives .standard (some name) := h.gives_readName hname
  exact hgives.2

theorem Headed.value_readFrameName {e : Element} {tag name : String}
    {attributes : List (String × String)} (h : e.Headed tag (("name", name) :: attributes))
    (hname : IsFrameName name) : e.readFrameName.value = some name := by
  have hgives : e.readFrameName.Gives .standard (some name) := h.gives_readFrameName hname
  exact hgives.2

namespace Grouped

variable {e : Element} {known : List String} {groups : List (String × List Element)}
  {unknown : List Element} {tag : String} {cs : List Element}

/-- No child of the groups is kept by a filter that keeps none of any group. -/
theorem filter_flatMap {p : Element → Bool} {groups : List (String × List Element)}
    (h : ∀ g ∈ groups, ∀ c ∈ g.2, p c = false) : (groups.flatMap Prod.snd).filter p = [] := by
  rw [List.filter_eq_nil_iff]
  intro c hc
  obtain ⟨g, hg, hc⟩ := List.mem_flatMap.mp hc
  simp [h g hg c hc]

/-- The children of a tag are the group of the tag. -/
theorem childrenNamed (h : e.Grouped known groups unknown) (hg : (tag, cs) ∈ groups) :
    e.childrenNamed tag = cs := by
  obtain ⟨gs, gs', rfl⟩ := List.append_of_mem hg
  have hnodup := h.nodup
  rw [List.map_append, List.map_cons, List.nodup_append, List.nodup_cons] at hnodup
  obtain ⟨-, ⟨hafter, -⟩, hbefore⟩ := hnodup
  -- other groups have no child of the tag, and unknown children neither
  have hother {gs'' : List (String × List Element)} (hsub : gs'' ⊆ gs ++ (tag, cs) :: gs')
      (hne : ∀ g ∈ gs'', g.1 ≠ tag) :
      (gs''.flatMap Prod.snd).filter (fun c => c.tag == tag) = [] := by
    apply filter_flatMap
    intro g hg c hc
    rw [(h.tags g (hsub hg)).2 c hc]
    exact beq_false_of_ne (hne g hg)
  have hleft : (gs.flatMap Prod.snd).filter (fun c => c.tag == tag) = [] :=
    hother (List.subset_append_left _ _) fun g hg =>
      hbefore _ (List.mem_map_of_mem hg) _ List.mem_cons_self
  have hright : (gs'.flatMap Prod.snd).filter (fun c => c.tag == tag) = [] :=
    hother (fun g hg => List.mem_append_right _ (List.mem_cons_of_mem _ hg)) fun g hg heq => by
      have hmem := List.mem_map_of_mem (f := Prod.fst) hg
      rw [heq] at hmem
      exact hafter hmem
  have hself : cs.filter (fun c => c.tag == tag) = cs := by
    rw [List.filter_eq_self]
    intro c hc
    simpa using (h.tags (tag, cs) hg).2 c hc
  have hunknown : unknown.filter (fun c => c.tag == tag) = [] := by
    rw [List.filter_eq_nil_iff]
    intro u hu htag
    exact h.unknown u hu (beq_iff_eq.mp htag ▸ (h.tags _ hg).1)
  rw [Element.childrenNamed, h.children, List.flatMap_append, List.flatMap_cons,
    List.filter_append, List.filter_append, List.filter_append, hleft, hself, hright, hunknown]
  simp

/-- The first child of a tag is the first one of its group. -/
theorem child? (h : e.Grouped known groups unknown) (hg : (tag, cs) ∈ groups) :
    e.child? tag = cs.head? := by
  rw [← h.childrenNamed hg, Element.childrenNamed, List.head?_filter]
  rfl

/-- What is read of a field that was written. -/
theorem value?_eq {α β : Type} [Writable α] [Readable β] {a : α}
    (h : e.Grouped known groups unknown) (hg : (tag, [field tag a]) ∈ groups) :
    (e.value? tag : Option β) =
      (Readable.read (Writable.write a) : Except String β).toOption := by
  rw [value?, h.child? hg]
  rfl

/-- Unknown children are what a policy may object to. -/
theorem accepts (h : e.Grouped known groups unknown)
    (hunknown : ∀ u ∈ unknown, policy.Accepts known u) :
    ∀ c ∈ e.children, policy.Accepts known c := by
  intro c hc
  rw [h.children, List.mem_append] at hc
  rcases hc with hc | hc
  · obtain ⟨g, hg, hc⟩ := List.mem_flatMap.mp hc
    obtain ⟨hknown, htag⟩ := h.tags g hg
    exact .inl (htag c hc ▸ hknown)
  · exact hunknown c hc

/-- An element without unknown children raises no complaint. -/
theorem gives_checkChildren (h : e.Grouped known groups []) :
    (e.checkChildren known).Gives policy () :=
  Element.gives_checkChildren.mpr (h.accepts (by simp))

/-- The children of unknown tags are those that come last. -/
theorem filter_unknown (h : e.Grouped known groups unknown) :
    e.children.filter (fun c => !known.contains c.tag) = unknown := by
  have hgroups : (groups.flatMap Prod.snd).filter (fun c => !known.contains c.tag) = [] := by
    apply filter_flatMap
    intro g hg c hc
    obtain ⟨hknown, htag⟩ := h.tags g hg
    simpa [htag c hc] using hknown
  have hunknown : unknown.filter (fun c => !known.contains c.tag) = unknown := by
    rw [List.filter_eq_self]
    intro u hu
    simpa using h.unknown u hu
  rw [h.children, List.filter_append, hgroups, hunknown, List.nil_append]

/-- The unknown children are read back as they are kept. -/
theorem gives_unknownChildren (h : e.Grouped known groups unknown)
    (hkept : KeptUnknown policy known unknown) :
    (e.unknownChildren known).Gives policy unknown :=
  Element.gives_unknownChildren.mpr ⟨h.accepts hkept.accepted, h.filter_unknown.symm⟩

/-- An element is proper if its names are and its children are.  That the tags of
its children are names is said once for all of them. -/
theorem proper (h : e.Grouped known groups unknown) {attributes : List (String × String)}
    (hhead : e.Headed tag attributes) (names : List String)
    (hsub : (attributes.map Prod.fst).Sublist names)
    (hnames : names.Nodup ∧ ∀ name ∈ tag :: (names ++ known), Markup.IsName name)
    (hgroups : ∀ g ∈ groups, Markup.IsName g.1 → ∀ c ∈ g.2, c.Proper)
    (hunknown : ∀ u ∈ unknown, u.Proper) : e.Proper := by
  obtain ⟨hnodup, hall⟩ := hnames
  obtain ⟨htag, hall⟩ := List.forall_mem_cons.mp hall
  obtain ⟨hattributes, hknown⟩ := List.forall_mem_append.mp hall
  have hchildren : ∀ c ∈ e.children, c.Proper := by
    intro c hc
    rw [h.children, List.mem_append] at hc
    rcases hc with hc | hc
    · obtain ⟨g, hg, hc⟩ := List.mem_flatMap.mp hc
      exact hgroups g hg (hknown g.1 (h.tags g hg).1) c hc
    · exact hunknown c hc
  -- attributes are left out if they are empty, so those written are some of `names`
  rw [← hhead.attributes] at hsub
  refine proper_children (hhead.tag ▸ htag) (fun a ha => ?_) (hsub.nodup hnodup) hhead.text
    hchildren
  exact hattributes a.1 (hsub.subset (List.mem_map_of_mem ha))

/-! ### Reading fields back -/

section

variable [Readable α] [Writable α] [BEq α] {a default : α}

/-- A faithful value is read back, whatever the usual one is. -/
theorem gives_readValueD (h : e.Grouped known groups unknown)
    (hg : (tag, [field tag a]) ∈ groups) (ha : Faithful a) :
    (e.readValueD tag default).Gives policy a :=
  Element.gives_readValueD.mpr (.inr ⟨field tag a, h.child? hg, ha.read⟩)

/-- A value that is only written if it is not the usual one. -/
theorem exists_readValueD (h : e.Grouped known groups unknown)
    (hg : (tag, if (a == default) = true then [] else [field tag a]) ∈ groups) (ha : Faithful a) :
    ∃ b, (e.readValueD tag default).Gives policy b ∧ (a == b) = true := by
  by_cases hd : (a == default) = true
  · -- nothing was written, and the default is read
    rw [if_pos hd] at hg
    exact ⟨default, Element.gives_readValueD.mpr (.inl ⟨h.child? hg, rfl⟩), hd⟩
  · rw [if_neg hd] at hg
    exact ⟨a, h.gives_readValueD hg ha, ha.refl⟩

/-- A faithful value that must be there is read back. -/
theorem gives_requireValue (h : e.Grouped known groups unknown)
    (hg : (tag, [field tag a]) ∈ groups) (ha : Faithful a) :
    (e.requireValue tag).Gives policy (some a) :=
  Element.gives_requireValue.mpr ⟨field tag a, a, h.child? hg, ha.read, rfl⟩

end

/-- A flag is read back. -/
theorem gives_readFlagD {b default : Bool} (h : e.Grouped known groups unknown)
    (hg : (tag, [field tag b]) ∈ groups) : (e.readFlagD tag default).Gives policy b :=
  Element.gives_readFlagD.mpr (.inr ⟨field tag b, h.child? hg, readFlag?_write b⟩)

/-- A share that is only written if it is not the usual one. -/
theorem exists_readShareD {x default : Float} (h : e.Grouped known groups unknown)
    (hg : (tag, if (x == default) = true then [] else [field tag x]) ∈ groups)
    (hx : Number.ReadsBack x) (htol : policy.Tolerates (¬ (0 ≤ x ∧ x ≤ 1))) :
    ∃ y, (e.readShareD tag default).Gives policy y ∧ (x == y) = true := by
  by_cases hd : (x == default) = true
  · rw [if_pos hd] at hg
    exact ⟨default, Element.gives_readShareD.mpr (.inl ⟨h.child? hg, rfl⟩), hd⟩
  · rw [if_neg hd] at hg
    refine ⟨x, Element.gives_readShareD.mpr (.inr ⟨field tag x, h.child? hg, ?_, htol⟩), hx.2⟩
    exact hx.faithful.read

/-- A part that an object may have. -/
theorem exists_readChildD {β : Type} [BEq β] {o : Option β} {write : β → Element}
    {read : Element → Reported (Option β)} (h : e.Grouped known groups unknown)
    (hg : (tag, o.toList.map write) ∈ groups)
    (ho : ∀ b, o = some b → ∃ b', (read (write b)).Gives policy (some b') ∧ (b == b') = true) :
    ∃ o', (e.readChildD tag none read).Gives policy o' ∧ (o == o') = true := by
  have hchild := h.child? hg
  cases o with
  | none => exact ⟨none, Element.gives_readChildD.mpr (.inl ⟨hchild, rfl⟩), rfl⟩
  | some b =>
    obtain ⟨b', hb', heq⟩ := ho b rfl
    exact ⟨some b', Element.gives_readChildD.mpr (.inr ⟨write b, hchild, hb'⟩), by simpa using heq⟩

/-- A flag that is only written if it is not as usual. -/
theorem gives_readFlagD_of_default {b default : Bool} (h : e.Grouped known groups unknown)
    (hg : (tag, if b = default then [] else [field tag b]) ∈ groups) :
    (e.readFlagD tag default).Gives policy b := by
  by_cases hb : b = default
  · rw [if_pos hb] at hg
    exact Element.gives_readFlagD.mpr (.inl ⟨h.child? hg, hb⟩)
  · rw [if_neg hb] at hg
    exact h.gives_readFlagD hg

/-- The text of a field is its text. -/
theorem childText? {text : String} (h : e.Grouped known groups unknown)
    (hg : (tag, [field tag text]) ∈ groups) : e.childText? tag = some text := by
  rw [Element.childText?, h.child? hg]
  rfl

/-- A tidy text that must be there is read back. -/
theorem gives_requireText {text : String} (h : e.Grouped known groups unknown)
    (hg : (tag, [field tag text]) ∈ groups) (htext : Text.IsTidy text) :
    (e.requireText tag).Gives policy (some text) :=
  Element.gives_requireText.mpr ⟨text, h.childText? hg, htext.1, rfl⟩

end Grouped

end Element

/-! ### Places -/

namespace Placement

/-- Places are compared by their poses, and by what these are relative to. -/
theorem beq_iff {p q : Placement} :
    (p == q) = true ↔ (p.pose == q.pose) = true ∧ p.relativeTo = q.relativeTo := by
  obtain ⟨⟩ := p
  obtain ⟨⟩ := q
  show instBEqPlacement.beq _ _ = true ↔ _
  simp [instBEqPlacement.beq]

/-- Whether a place says nothing and is not written. -/
def isSilent (p : Placement) : Bool := p.pose == .identity && p.relativeTo = ""

/-- The pose of a place that is written reads back. -/
def ReadsBack (p : Placement) : Prop := p.isSilent = false → p.pose.ReadsBack

/-- The element of a place. -/
def toElement (p : Placement) : Element :=
  ({ tag := "pose", text := some p.pose.text } : Element).setNonempty "relative_to" p.relativeTo

/-- What is written of a place. -/
def elements (p : Placement) : List Element := if p.isSilent then [] else [p.toElement]

@[simp] theorem forall_tag_elements {p : Placement} :
    (∀ c ∈ p.elements, c.tag = "pose") ↔ True := by
  apply iff_true_intro
  intro c h
  unfold elements at h
  split at h
  · cases h
  · rw [List.mem_singleton.mp h, toElement, Element.tag_setNonempty]

theorem attributes_toElement (p : Placement) :
    p.toElement.attributes = Element.nonempty "relative_to" p.relativeTo := by
  rw [toElement, Element.attributes_setNonempty _ (by simp)]
  rfl

@[simp] theorem forall_proper_elements {p : Placement} :
    (∀ c ∈ p.elements, c.Proper) ↔ True := by
  apply iff_true_intro
  intro c h
  unfold elements at h
  split at h
  · cases h
  · rw [List.mem_singleton.mp h, toElement, Element.setNonempty]
    split
    · exact Element.proper_text (by decide) (by simp) (by simp) p.pose.isTidy_text
    · have hname : Markup.IsName "relative_to" := by decide
      show Element.Proper
        { tag := "pose", attributes := [("relative_to", p.relativeTo)], text := _ }
      exact Element.proper_text (by decide) (by simpa using hname) (by simp) p.pose.isTidy_text

end Placement

/-- A place is pushed as the row of its elements, which is empty for a silent
one. -/
theorem Element.pushPlacement_eq (e : Element) (p : Placement) :
    e.pushPlacement p = e.pushAll p.elements := by
  unfold pushPlacement Placement.elements Placement.isSilent
  split
  · rfl
  · rfl

namespace Element.Grouped

variable {policy : Policy} {e : Element} {known : List String}
  {groups : List (String × List Element)} {unknown : List Element}

/-- A place reads back as an equal one. -/
theorem exists_readPlacement {p : Placement} (h : e.Grouped known groups unknown) (policy : Policy)
    (hg : ("pose", p.elements) ∈ groups) (hp : p.ReadsBack) :
    ∃ q, e.readPlacement.Gives policy q ∧ (p == q) = true := by
  have hchild := h.child? hg
  unfold readPlacement
  cases hsilent : p.isSilent with
  | true =>
    -- nothing was written, and no place is the identity in no frame
    rw [hchild, Placement.elements, if_pos hsilent]
    refine ⟨{}, gives_pure.mpr rfl, ?_⟩
    simpa [Placement.beq_iff, Placement.isSilent] using hsilent
  | false =>
    obtain ⟨q, hq, heq⟩ := hp hsilent
    rw [hchild, Placement.elements, hsilent]
    have hattributes := p.attributes_toElement
    have hrelative : (p.toElement.attribute? "relative_to").getD "" = p.relativeTo :=
      getD_attribute?_nonempty _ List.not_mem_nil (hattributes.trans (List.nil_append _).symm)
    -- nothing is said of how the pose is written, so it is written in the usual way
    have hother {name : String} (hname : name ≠ "relative_to") :
        p.toElement.attribute? name = none := by
      rw [attribute?, hattributes, nonempty]
      split
      · rfl
      · simp [hname.symm]
    have htext : p.toElement.text = some p.pose.text := by
      rw [Placement.toElement, text_setNonempty]
    have hne : ¬ (Text.trim p.pose.text).isEmpty = true := by
      rw [p.pose.isTidy_text.2]
      simpa using p.pose.isTidy_text.1
    refine ⟨⟨q, p.relativeTo⟩, ?_, Placement.beq_iff.mpr ⟨heq, rfl⟩⟩
    simp only [Bool.false_eq_true, if_false, List.head?_cons, hrelative, htext, Option.getD_some,
      hne, poseOfText_of_ofString (hother (by decide)) (hother (by decide)) hq]
    exact gives_pure.mpr rfl

/-- Objects that are read back one by one are read back in a row. -/
theorem exists_readAll {α : Type} [Named α] {xs : List α} {write : α → Element}
    {read : Element → Reported (Option α)} {r : α → α → Prop}
    (h : e.Grouped known groups unknown) (hg : (Named.kind α, xs.map write) ∈ groups)
    (hname : ∀ x y, r x y → Named.name x = Named.name y) (hdistinct : Distinct xs)
    (hxs : ∀ x ∈ xs, ∃ y, (read (write x)).Gives policy (some y) ∧ r x y) :
    ∃ ys, (e.readAll read).Gives policy ys ∧ List.Forall₂ r xs ys := by
  obtain ⟨ys, hys⟩ := exists_forall₂ hxs
  refine ⟨ys, gives_readAll ?_ ?_, hys.imp fun _ _ hxy => hxy.2⟩
  · rw [h.childrenNamed hg, List.forall₂_map_left_iff]
    exact hys.imp fun _ _ hxy => hxy.1
  -- names are what they were, so they still differ
  · rw [← map_eq_of_forall₂ (fun x y hxy => hname x y hxy.2) hys]
    exact hdistinct

end Element.Grouped

end Scene
