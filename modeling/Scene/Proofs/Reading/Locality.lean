/-
What is wrong with one object stays with it.

An element may hold a child that the reader drops: one that cannot be read, or
one whose name an earlier one of its kind has.  The document is then the one that
would have been read without the child, graphs included, and the errors are those
that would have been reported, with a block put in at one place: what is wrong
with the child, and the refusal of its name if that was the reason.

The child may be anywhere.  So the kinds of objects are made data here, each with
its reader, and the five readers that read further objects, of documents, worlds,
models, links and actors, are said to be those of *holders*.  For each of them
there is one lemma: if one of its rows of parts has more to report and the rest
of the element is the same, then so has the holder, and its value stays.  From
there an induction goes up from the element that the child was put into to the
document.  On the way a holder may not be built itself; then nothing in it is
read, and the block is empty.

Main statement: `failure_is_local`.
-/
import Scene.Proofs.Reading.Grows
import Scene.Proofs.Reading.Model
import Scene.Reading.Document

namespace Scene

open Element Reported

/-! ### Kinds of objects -/

/-- The kinds of objects that are told apart by their names. -/
inductive Kind
  | world | model | frame | light | actor | link | joint | collision | visual | animation
deriving DecidableEq

namespace Kind

/-- The objects of a kind. -/
def Object : Kind → Type
  | world => World
  | model => Model
  | frame => Frame
  | light => Light
  | actor => Actor
  | link => Link
  | joint => Joint
  | collision => Collision
  | visual => Visual
  | animation => Animation

/-- Objects of every kind have names. -/
instance : (k : Kind) → Named k.Object
  | world => inferInstanceAs (Named World)
  | model => inferInstanceAs (Named Model)
  | frame => inferInstanceAs (Named Frame)
  | light => inferInstanceAs (Named Light)
  | actor => inferInstanceAs (Named Actor)
  | link => inferInstanceAs (Named Link)
  | joint => inferInstanceAs (Named Joint)
  | collision => inferInstanceAs (Named Collision)
  | visual => inferInstanceAs (Named Visual)
  | animation => inferInstanceAs (Named Animation)

/-- The reader of a kind of objects. -/
def read : (k : Kind) → Element → Reported (Option k.Object)
  | world => World.ofElement
  | model => Model.ofElement
  | frame => Frame.ofElement
  | light => Light.ofElement
  | actor => Actor.ofElement
  | link => Link.ofElement
  | joint => Joint.ofElement
  | collision => Collision.ofElement
  | visual => Visual.ofElement
  | animation => Animation.ofElement

/-- The tag of the elements of a kind. -/
def tag (k : Kind) : String := Named.kind k.Object

end Kind

/-- What can hold objects: a document, or an object of some kind. -/
inductive Holder
  | document
  | object (kind : Kind)

namespace Holder

/-- The kinds of objects in a holder. -/
def parts : Holder → List Kind
  | document => [.world, .model, .light, .actor]
  | object .world => [.model, .frame, .light, .actor]
  | object .model => [.link, .joint, .frame, .model]
  | object .link => [.collision, .visual, .light]
  | object .actor => [.animation, .link, .joint]
  | object _ => []

/-- What the reader of a holder gives. -/
def Found : Holder → Type
  | document => Document
  | object k => Option k.Object

/-- The reader of a holder. -/
def read : (holder : Holder) → Element → Reported holder.Found
  | document => Document.ofElement
  | object k => k.read

/-- Whether an element can be read as a holder, and so the parts in it are. -/
def builds : Holder → Element → Bool
  | document, e => e.tag == Document.tag
  | object k, e => (k.read e).value.isSome

end Holder

/-! ### One holder -/

section

variable {k : Kind} {e e' : Element} {block : List Report} (h : AlikeBut k.tag e e')
  (hrow : Grows block (e.readAll k.read) (e'.readAll k.read))

include h hrow

/-! All reads but that of one row are the same, and are passed by in the order in
which the reader makes them.  The cases are the rows in that order. -/

/-- A child more among the parts of a link grows the link. -/
theorem Link.grows_ofElement (hk : k ∈ (Holder.object .link).parts) :
    Grows (if (ofElement e).value.isSome then block else []) (ofElement e) (ofElement e') := by
  simp only [Holder.parts, List.mem_cons, List.not_mem_nil, or_false] at hk
  rw [ofElement, ofElement, h.readFrameName]
  refine .afterOption rfl rfl (fun name => rfl) fun name => ?_
  rcases hk with rfl | rfl | rfl
  all_goals
    simp (disch := decide) only [h.readPlacement, h.unknownChildren, h.readChildD, h.readAll]
  · exact .after <| .after <| .after <| hrow.within _
  · exact .after <| .after <| .after <| .after <| hrow.within _
  · exact .after <| .after <| .after <| .after <| .after <| hrow.within _

/-- The same for the parts of a model, its nested models included. -/
theorem Model.grows_ofElement (hk : k ∈ (Holder.object .model).parts) :
    Grows (if (ofElement e).value.isSome then block else []) (ofElement e) (ofElement e') := by
  have hmodels (e : Element) : keepUnique [] ((e.childrenNamed "model").map ofElement) =
      e.readAll ofElement := rfl
  simp only [Holder.parts, List.mem_cons, List.not_mem_nil, or_false] at hk
  rw [ofElement_eq, ofElement_eq, assemble, assemble, h.readFrameName]
  refine .afterOption rfl rfl (fun name => ?_) fun name => ?_
  · simp only [value_bind, value_ite_bind]
    rfl
  rcases hk with rfl | rfl | rfl | rfl
  all_goals
    simp (disch := decide) only [h.readPlacement, h.unknownChildren, h.readFlagD, h.attribute?,
      h.describe, hmodels, h.readAll]
  · exact .after <| .after <| .after <| .after <| hrow.within _
  · exact .after <| .after <| .after <| .after <| .after <| hrow.within _
  · exact .after <| .after <| .after <| .after <| .after <| .after <| hrow.within _
  · exact .after <| .after <| .after <| .after <| .after <| .after <| .after <| hrow.within _

/-- The same for the parts of an actor. -/
theorem Actor.grows_ofElement (hk : k ∈ (Holder.object .actor).parts) :
    Grows (if (ofElement e).value.isSome then block else []) (ofElement e) (ofElement e') := by
  simp only [Holder.parts, List.mem_cons, List.not_mem_nil, or_false] at hk
  rw [ofElement, ofElement, h.readName]
  refine .afterOption rfl rfl (fun name => rfl) fun name => ?_
  rcases hk with rfl | rfl | rfl
  all_goals
    simp (disch := decide) only [h.readPlacement, h.checkChildren, h.readChildD, h.readAll]
  · exact .after <| .after <| .after <| hrow.within _
  · exact .after <| .after <| .after <| .after <| .after <| hrow.within _
  · exact .after <| .after <| .after <| .after <| .after <| .after <| hrow.within _

/-- The same for what stands in a world. -/
theorem World.grows_ofElement (hk : k ∈ (Holder.object .world).parts) :
    Grows (if (ofElement e).value.isSome then block else []) (ofElement e) (ofElement e') := by
  simp only [Holder.parts, List.mem_cons, List.not_mem_nil, or_false] at hk
  rw [ofElement, ofElement, h.readName]
  refine .afterOption rfl rfl (fun name => rfl) fun name => ?_
  rcases hk with rfl | rfl | rfl | rfl
  all_goals
    simp (disch := decide) only [h.unknownChildren, h.readValueD, h.readAll]
  · exact .after <| .after <| .after <| hrow.within _
  · exact .after <| .after <| .after <| .after <| hrow.within _
  · exact .after <| .after <| .after <| .after <| .after <| hrow.within _
  · exact .after <| .after <| .after <| .after <| .after <| .after <| hrow.within _

/-- The same for a document, if its root has the right tag. -/
theorem Document.grows_ofElement (hk : k ∈ Holder.document.parts) :
    Grows (if e.tag == tag then block else []) (ofElement e) (ofElement e') := by
  simp only [Holder.parts, List.mem_cons, List.not_mem_nil, or_false] at hk
  have hversion : readVersion e' = readVersion e := by
    rw [readVersion, h.attribute?, readVersion]
  rw [ofElement, ofElement, h.tag, hversion]
  by_cases htag : e.tag = tag
  · simp only [htag, ne_eq, not_true, if_false, beq_self_eq_true, if_true]
    rcases hk with rfl | rfl | rfl | rfl
    all_goals
      simp (disch := decide) only [h.unknownChildren, h.readAll]
    · exact .after <| .after <| hrow.within _
    · exact .after <| .after <| .after <| hrow.within _
    · exact .after <| .after <| .after <| .after <| hrow.within _
    · exact .after <| .after <| .after <| .after <| .after <| hrow.within _
  · simp only [ne_eq, htag, not_false_eq_true, if_true, beq_iff_eq, if_false]
    exact .refl _

/-- The same for each of the five. -/
theorem Holder.grows_read {holder : Holder} (hk : k ∈ holder.parts) :
    Grows (if holder.builds e then block else []) (holder.read e) (holder.read e') := by
  cases holder with
  | document => exact Document.grows_ofElement h hrow hk
  | object kind =>
    cases kind with
    | world => exact World.grows_ofElement h hrow hk
    | model => exact Model.grows_ofElement h hrow hk
    | link => exact Link.grows_ofElement h hrow hk
    | actor => exact Actor.grows_ofElement h hrow hk
    | _ => exact absurd hk List.not_mem_nil

end

/-! ### One row -/

/-- The children of a tag, where one of them is known. -/
theorem Element.childrenNamed_between {t : String} {c : Element} (hc : c.tag = t) (e : Element)
    (before after : List Element) :
    childrenNamed { e with children := before ++ c :: after } t =
      (before.filter fun c => c.tag == t) ++ c :: after.filter fun c => c.tag == t := by
  simp [childrenNamed, hc]

/-- The element `x` is not kept as an object of a kind behind the elements
`earlier`, with errors that say so. -/
inductive Dropped (k : Kind) (x : Element) (earlier : List Element) : Errors → Prop
  | unreadable : (k.read x).value = none → Dropped k x earlier []
  | duplicate {y z : k.Object} {c : Element} : (k.read x).value = some y → c ∈ earlier →
      c.tag = k.tag → (k.read c).value = some z → Named.name z = Named.name y →
      Dropped k x earlier [.duplicateName k.tag (Named.name y)]

variable {k : Kind} {x : Element} {earlier : List Element} {es : Errors}

/-- What is reported of an element that is not kept. -/
theorem Dropped.grows_readAll (h : Dropped k x earlier es) (hx : x.tag = k.tag) (e : Element)
    (later : List Element) :
    Grows ((k.read x).reports ++ es.map .error)
      (readAll { e with children := earlier ++ later } k.read)
      (readAll { e with children := earlier ++ x :: later } k.read) := by
  have hx' : x.tag = Named.kind k.Object := hx
  rw [readAll, readAll, childrenNamed_between hx', childrenNamed]
  simp only [List.filter_append, List.map_append, List.map_cons]
  cases h with
  | unreadable hnone =>
    rw [List.map_nil, List.append_nil]
    exact Grows.keepUnique_of_none hnone
  | @duplicate y z c hy hc htag hz hname =>
    refine Grows.keepUnique_of_taken hy (List.mem_map_of_mem (List.mem_filter.mpr ⟨hc, ?_⟩)) hz
      hname
    exact beq_iff_eq.mpr htag

/-- A child that has more to report. -/
theorem Reported.Grows.readAll {c c' : Element} {block : List Report}
    (h : Grows block (k.read c) (k.read c')) (hc : c.tag = k.tag) (hc' : c'.tag = k.tag)
    (e : Element) (before after : List Element) :
    Grows block (Element.readAll { e with children := before ++ c :: after } k.read)
      (Element.readAll { e with children := before ++ c' :: after } k.read) := by
  have htag : c.tag = Named.kind k.Object := hc
  have htag' : c'.tag = Named.kind k.Object := hc'
  rw [Element.readAll, Element.readAll, childrenNamed_between htag, childrenNamed_between htag',
    List.map_append, List.map_append]
  exact Grows.keepUnique_of_grows h

/-! ### One more child -/

/-- The second element is the first one, read as a holder, with one more child:
`x`, as an object of a kind, stands behind the children `earlier` of an element
that is reached by reading on.  The flag tells whether it is reached, which it is
if all holders on the way are built. -/
inductive Extended (k : Kind) (x : Element) (earlier : List Element) :
    Holder → Bool → Element → Element → Prop
  | here {holder : Holder} (e : Element) (later : List Element) : k ∈ holder.parts →
      Extended k x earlier holder (holder.builds { e with children := earlier ++ later })
        { e with children := earlier ++ later } { e with children := earlier ++ x :: later }
  | inside {holder : Holder} (part : Kind) {reached : Bool} {c c' : Element} (e : Element)
      (before after : List Element) : part ∈ holder.parts → c.tag = part.tag →
      Extended k x earlier (.object part) reached c c' →
      Extended k x earlier holder
        (holder.builds { e with children := before ++ c :: after } && reached)
        { e with children := before ++ c :: after } { e with children := before ++ c' :: after }

namespace Extended

variable {holder : Holder} {reached : Bool} {e e' : Element}

/-- Elements on the way down keep their tags. -/
theorem tag_eq (h : Extended k x earlier holder reached e e') : e'.tag = e.tag := by
  cases h with
  | here => rfl
  | inside => rfl

/-- A child that is dropped makes no difference to what is read around it, but for
its own errors. -/
theorem grows_read (h : Extended k x earlier holder reached e e') (hx : x.tag = k.tag)
    (hdropped : Dropped k x earlier es) :
    Grows (if reached then (k.read x).reports ++ es.map .error else [])
      (holder.read e) (holder.read e') := by
  -- outwards from the holder of the child: each holder around it only has more to report
  induction h with
  | here e later hk =>
    have halike := alikeBut_between (t := k.tag) e earlier later (List.forall_mem_nil _)
      (List.forall_mem_singleton.mpr hx)
    exact Holder.grows_read halike (hdropped.grows_readAll hx e later) hk
  | @inside _ part _ c c' e before after hpart hc hrest ih =>
    have hc' : c'.tag = part.tag := hrest.tag_eq.trans hc
    have halike := alikeBut_between e before after (List.forall_mem_singleton.mpr hc)
      (List.forall_mem_singleton.mpr hc')
    have hgrows := Holder.grows_read halike (ih.readAll hc hc' e before after) hpart
    rw [← ite_and] at hgrows
    simpa using hgrows

end Extended

namespace Document

/-- **Partial failure is local.**  With one more child anywhere that cannot be
read, or that has the name of an earlier one, the document that is read is the
same, and the errors are the same but for one block: those of the child itself,
and the one about its name. -/
theorem failure_is_local {reached : Bool} {e e' : Element}
    (h : Extended k x earlier .document reached e e')
    (hx : x.tag = k.tag) (hdropped : Dropped k x earlier es) :
    (ofElement e').value = (ofElement e).value ∧
      ∀ policy, Inserted (if reached then (k.read x).errors policy ++ es else [])
        ((ofElement e).errors policy) ((ofElement e').errors policy) := by
  have hgrows : Grows _ (ofElement e) (ofElement e') := h.grows_read hx hdropped
  refine ⟨hgrows.value, fun policy => ?_⟩
  have herrors := hgrows.errors policy
  cases reached with
  | false => exact herrors
  | true =>
    -- the block holds errors, and these count under every policy
    have hes : (es.map Report.error).filterMap (Report.error? policy) = es := by
      simp [List.filterMap_map, Function.comp_def, Report.error?, Report.settle]
    rw [if_pos rfl, List.filterMap_append, hes] at herrors
    exact herrors

/-- A document with a world, with a model in it that has some links. -/
def shelf (links : List Element) : Element :=
  { tag := "sdf", attributes := [("version", "1.9")]
    children :=
      [{ tag := "world", attributes := [("name", "w")]
         children := [{ tag := "model", attributes := [("name", "m")], children := links }] }] }

/-- A second link of one name, and with an error of its own. -/
theorem failure_is_local_shelf :
    let board : Element := { tag := "link", attributes := [("name", "board")] }
    let twin : Element := { board with children := [{ tag := "visual" }] }
    (ofElement (shelf [board, twin])).value = (ofElement (shelf [board])).value ∧
      Inserted [.missingAttribute "name" "visual", .duplicateName "link" "board"]
        ((ofElement (shelf [board])).errors .standard)
        ((ofElement (shelf [board, twin])).errors .standard) := by
  intro board twin
  have hplace : Extended .link twin [board] .document true (shelf [board])
      (shelf [board, twin]) :=
    .inside .world (shelf []) [] [] (by decide) rfl <|
      .inside .model { tag := "world", attributes := [("name", "w")] } [] [] (by decide) rfl <|
        .here { tag := "model", attributes := [("name", "m")] } [] (by decide)
  have hdropped : Dropped .link twin [board] [.duplicateName "link" "board"] :=
    .duplicate (Option.some_get (by decide +kernel)).symm (List.mem_singleton_self _) rfl
      (Option.some_get (by decide +kernel)).symm (by decide +kernel)
  obtain ⟨hvalue, herrors⟩ := failure_is_local hplace rfl hdropped
  have hblock : (Kind.link.read twin).errors .standard = [.missingAttribute "name" "visual"] := by
    decide +kernel
  have herrors := herrors .standard
  rw [hblock] at herrors
  exact ⟨hvalue, herrors⟩

end Document

end Scene
