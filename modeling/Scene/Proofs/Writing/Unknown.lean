/-
Children of unknown tags that are kept.

A document, a world, a model and a link each have a table of the tags that are
known in them.  Their reader and their writer have to agree with it, and with each
other: what the reader keeps is what the table does not list, and the writer adds
nothing to it that the table does not list.  So what is kept is written last, after
children of known tags only, and it is kept again.

The four are made data here, *keepers*, each with its table, its reader and its
writer.  That the written element is read at all is a matter of its name, and the
reader has seen to that.

Main statement: `Keeper.unknown_kept`.
-/
import Scene.Proofs.Reading.Names
import Scene.Proofs.Reading.Unknown
import Scene.Proofs.Writing.Document

namespace Scene

open Element Reported

/-! ### Keepers -/

/-- What keeps children of unknown tags. -/
inductive Keeper
  | document | world | model | link
deriving DecidableEq

namespace Keeper

/-- What there is to be read of the elements of a keeper. -/
def Object : Keeper → Type
  | document => Document
  | world => World
  | model => Model
  | link => Link

/-- The keeper as something that holds objects. -/
def holder : Keeper → Holder
  | document => .document
  | world => .object .world
  | model => .object .model
  | link => .object .link

/-- The tags known in a keeper. -/
def knownTags : Keeper → List String
  | document => Document.knownTags
  | world => World.knownTags
  | model => Model.knownTags
  | link => Link.knownTags

/-- The reader of a keeper.  An element of another tag than that of a document is
none. -/
def read : (k : Keeper) → Element → Reported (Option k.Object)
  | document => fun e =>
    (fun d => if e.tag = Document.tag then some d else none) <$> Document.ofElement e
  | world => World.ofElement
  | model => Model.ofElement
  | link => Link.ofElement

/-- The writer of a keeper. -/
def write : (k : Keeper) → k.Object → Element
  | document => Document.toElement
  | world => World.toElement
  | model => Model.toElement
  | link => Link.toElement

/-- The children of unknown tags that are kept. -/
def unknown : (k : Keeper) → k.Object → List Element
  | document => Document.unknown
  | world => World.unknown
  | model => Model.unknown
  | link => Link.unknown

variable {k : Keeper} {e : Element} {x : k.Object} {policy : Policy}

/-- What reads as a document has its tag. -/
theorem document_of_read {d : Document} (h : (document.read e).value = some d) :
    e.tag = Document.tag ∧ (Document.ofElement e).value = d := by
  by_cases htag : e.tag = Document.tag
  · have hvalue : (document.read e).value = some (Document.ofElement e).value := if_pos htag
    exact ⟨htag, Option.some.inj (hvalue.symm.trans h)⟩
  · have hvalue : (document.read e).value = none := if_neg htag
    exact absurd (hvalue.symm.trans h) (by simp)

/-! ### Reading -/

/-- What is kept is what the table does not list. -/
theorem unknown_of_read (h : (k.read e).value = some x) :
    k.unknown x = e.unknownOf k.knownTags := by
  cases k with
  | document =>
    obtain ⟨htag, rfl⟩ := document_of_read h
    exact Document.unknown_ofElement htag
  | world => exact World.unknown_of_ofElement h
  | model => exact Model.unknown_of_ofElement h
  | link => exact Link.unknown_of_ofElement h

/-- A keeper reports its own unknown children first, and then those of its
parts. -/
theorem unrecognized_read (h : (k.read e).value = some x) :
    (k.read e).unrecognized policy = e.notices policy k.knownTags ++ k.holder.notices policy e := by
  cases k with
  | document =>
    have hread :
        (document.read e).unrecognized policy = (Document.ofElement e).unrecognized policy :=
      unrecognized_map _ _
    exact hread.trans (Document.unrecognized_ofElement (document_of_read h).1)
  | world => exact World.unrecognized_ofElement h
  | model => exact Model.unrecognized_ofElement h
  | link => exact Link.unrecognized_ofElement h

/-! ### Writing -/

/-- What is kept comes last. -/
theorem exists_grouped (h : (k.read e).value = some x) :
    ∃ groups, (k.write x).Grouped k.knownTags groups (k.unknown x) := by
  -- what is kept was kept for its tag, which is not in the table
  have hunknown : ∀ u ∈ k.unknown x, u.tag ∉ k.knownTags := by
    rw [unknown_of_read h]
    intro u hu
    simpa using (List.mem_filter.mp hu).2
  cases k with
  | document => exact ⟨_, Document.grouped hunknown⟩
  | world => exact ⟨_, World.grouped hunknown⟩
  | model => exact ⟨_, Model.grouped hunknown⟩
  | link => exact ⟨_, Link.grouped hunknown⟩

/-- The written element is read again, since it has the name that the object was
read with. -/
theorem exists_read_write (h : (k.read e).value = some x) :
    ∃ y, (k.read (k.write x)).value = some y := by
  cases k with
  | document =>
    have htag : (Document.toElement x).tag = Document.tag := (Document.headed x).tag
    exact ⟨_, if_pos htag⟩
  | world =>
    have hname : World.name x ≠ "" := (World.wellNamed_of_ofElement h).name
    exact ⟨_, value_bind_some ((World.headed x).value_readName hname)⟩
  | model =>
    obtain ⟨_, hname⟩ := Model.wellNamed_of_ofElement h
    have hread := (Model.headed x).value_readFrameName (isOwnName_iff.mp hname)
    change ∃ y, (Model.ofElement (Model.toElement x)).value = some y
    -- what is missing or wrong besides the name is reported, but the model is read
    rw [Model.ofElement_eq, Model.assemble, value_bind_some hread]
    simp only [value_bind, value_ite_bind]
    exact ⟨_, rfl⟩
  | link =>
    have hname := (Link.wellNamed_of_ofElement h).name
    have hread := (Link.headed x).value_readFrameName (isOwnName_iff.mp hname)
    exact ⟨_, value_bind_some hread⟩

/-- The tags of the parts are among those that a keeper knows. -/
theorem tag_mem_knownTags (k : Keeper) : ∀ part ∈ k.holder.parts, part.tag ∈ k.knownTags := by
  cases k <;> decide

/-! ### Reading and writing -/

/-- **What means nothing to a reader is kept.**  Of a document, a world, a model or a
link that is read, the children are kept whose tags its table does not list, as
they are and in their order.  Whatever the policy, it is put to each of them once,
in order, unless there is a colon in the tag; beyond that it is only put to what is
found inside parts of known tags.  Writing puts what was kept behind children of
known tags, and what is written is read again and keeps the same. -/
theorem unknown_kept (k : Keeper) {e : Element} {x : k.Object} (h : (k.read e).value = some x) :
    k.unknown x = (e.children.filter fun c => c.tag ∉ k.knownTags) ∧
    (∀ policy, (k.read e).unrecognized policy =
      (((k.unknown x).filter fun c => ':' ∉ c.tag.toList).map fun c =>
        Report.enforce policy.unrecognized .elementIncorrectType
          s!"unrecognized element <{c.tag}> in {e.describe}") ++
      k.holder.parts.flatMap fun part =>
        (e.childrenNamed part.tag).flatMap fun c => (part.read c).unrecognized policy) ∧
    (∀ part ∈ k.holder.parts, part.tag ∈ k.knownTags) ∧
    (∃ others, (k.write x).children = others ++ k.unknown x ∧ ∀ c ∈ others, c.tag ∈ k.knownTags) ∧
    ∃ y, (k.read (k.write x)).value = some y ∧ k.unknown y = k.unknown x := by
  have hunknown := unknown_of_read h
  obtain ⟨groups, hgrouped⟩ := exists_grouped h
  refine ⟨?_, fun policy => ?_, k.tag_mem_knownTags, ?_, ?_⟩
  · rw [hunknown, unknownOf]
    exact List.filter_congr fun c _ => by simp
  · rw [unrecognized_read h, notices, ← hunknown]
    congr 2
    exact List.filter_congr fun c _ => by simp [isForeign]
  · refine ⟨_, hgrouped.children, fun c hc => ?_⟩
    obtain ⟨g, hg, hc⟩ := List.mem_flatMap.mp hc
    obtain ⟨hknown, htag⟩ := hgrouped.tags g hg
    exact htag c hc ▸ hknown
  · obtain ⟨y, hy⟩ := exists_read_write h
    exact ⟨y, hy, (unknown_of_read hy).trans hgrouped.filter_unknown⟩

/-- A world with two children of unknown tags, one of them foreign, and with a third
one in a link in it. -/
def atticElement : Element :=
  { tag := "world", attributes := [("name", "attic")]
    children :=
      [{ tag := "dust" }, { tag := "my:note", text := some "tidy up" },
        { tag := "model", attributes := [("name", "chest")]
          children :=
            [{ tag := "link", attributes := [("name", "lid")], children := [{ tag := "rust" }] }] }] }

theorem unknown_kept_attic :
    ∃ w : World, (world.read atticElement).value = some w ∧
      w.unknown = [{ tag := "dust" }, { tag := "my:note", text := some "tidy up" }] ∧
      (world.read atticElement).unrecognized .standard =
        [.inr { level := .debug, message := "unrecognized element <dust> in world 'attic'" },
          .inr { level := .debug, message := "unrecognized element <rust> in link 'lid'" }] ∧
      ∃ v : World, (world.read w.toElement).value = some v ∧ v.unknown = w.unknown := by
  have hsome : (world.read atticElement).value.isSome = true := by decide +kernel
  obtain ⟨w, hw⟩ := Option.isSome_iff_exists.mp hsome
  obtain ⟨hunknown, -, -, -, hagain⟩ := unknown_kept world hw
  exact ⟨w, hw, hunknown, by decide +kernel, hagain⟩

end Keeper

end Scene
