/-
Links as they are read.

A link that was read without errors satisfies what its readers check: its name
is one that a frame can have, whatever looks wrong about its dimensions is
tolerated by the policy, its texts are tidy, and what it holds knows its name.
-/
import Scene.Proofs.Reading.Field
import Scene.Reading.Link

namespace Scene

open Reported Element

variable {policy : Policy} {e : Element}

/-! ### Shapes -/

namespace Geometry

/-- What is checked of a shape. -/
def Valid (policy : Policy) : Geometry → Prop
  | .empty => True
  | .box s => policy.Tolerates (Vec3.least s.size ≤ 0)
  | .cylinder s => policy.Tolerates (s.radius ≤ 0) ∧ policy.Tolerates (s.length ≤ 0)
  | .sphere s => policy.Tolerates (s.radius ≤ 0)
  | .capsule s => policy.Tolerates (s.radius ≤ 0) ∧ policy.Tolerates (s.length ≤ 0)
  | .ellipsoid s => policy.Tolerates (Vec3.least s.radii ≤ 0)
  | .plane _ => True
  | .mesh s => Text.IsTidy s.uri ∧ ∀ name, s.submesh = some name → Text.IsTidy name

variable {shape : Element}

/-- A length that is not positive must be tolerated. -/
theorem gives_checkPositive {field : String} {x : Float} {u : Unit} :
    (checkPositive shape field x).Gives policy u ↔ policy.Tolerates (x ≤ 0) := by
  unfold checkPositive
  by_cases h : x ≤ 0
  · simp [h, Policy.Tolerates]
  · simp [h, Policy.Tolerates]

/-- A value that a shape must have, of which some measure should be positive. -/
theorem gives_requirePositive {α : Type} [Readable α] (measure : α → Float) {field : String}
    {read : Option α → Reported α} {v : α}
    (hread : ∀ value, read (some value) =
      checkPositive shape field (measure value) >>= fun _ => pure value) :
    (shape.requireValue field >>= read).Gives policy v ↔
      ∃ c, shape.child? field = some c ∧ Readable.read (c.text.getD "") = .ok v ∧
        policy.Tolerates (measure v ≤ 0) := by
  simp only [gives_bind, gives_requireValue]
  constructor
  · rintro ⟨_, ⟨c, y, hc, hr, rfl⟩, h⟩
    simp only [hread, gives_bind, gives_checkPositive, gives_pure] at h
    obtain ⟨-, htol, rfl⟩ := h
    exact ⟨c, hc, hr, htol⟩
  · rintro ⟨c, hc, hr, htol⟩
    refine ⟨_, ⟨c, v, hc, hr, rfl⟩, ?_⟩
    simp only [hread, gives_bind, gives_checkPositive, gives_pure, and_true]
    exact ⟨(), htol⟩

/-- A length must be there, and be positive unless this is tolerated. -/
theorem gives_readLength {field : String} {default x : Float} :
    (readLength shape field default).Gives policy x ↔
      ∃ c, shape.child? field = some c ∧ Readable.read (c.text.getD "") = .ok x ∧
        policy.Tolerates (x ≤ 0) :=
  gives_requirePositive (fun y => y) fun _ => rfl

/-- Three lengths must be there, the least of them positive unless this is
tolerated. -/
theorem gives_readLengths {field : String} {default v : Vec3 Float} :
    (readLengths shape field default).Gives policy v ↔
      ∃ c, shape.child? field = some c ∧ Readable.read (c.text.getD "") = .ok v ∧
        policy.Tolerates (Vec3.least v ≤ 0) :=
  gives_requirePositive Vec3.least fun _ => rfl

/-- A shape that is read without errors is valid, whatever its kind. -/
theorem valid_of_readShape (hshape : shape.Tidy) {g : Geometry}
    (h : (readShape e shape).Gives policy g) : g.Valid policy := by
  unfold readShape at h
  -- box, cylinder, sphere, capsule, ellipsoid, plane, mesh; and no shape otherwise
  split at h
  · simp only [gives_bind, gives_readLengths, gives_pure] at h
    obtain ⟨_, ⟨-, -, -, htol⟩, rfl⟩ := h
    exact htol
  · simp only [gives_bind, gives_readLength, gives_pure] at h
    obtain ⟨_, ⟨-, -, -, hradius⟩, _, ⟨-, -, -, hlength⟩, rfl⟩ := h
    exact ⟨hradius, hlength⟩
  · simp only [gives_bind, gives_readLength, gives_pure] at h
    obtain ⟨_, ⟨-, -, -, htol⟩, rfl⟩ := h
    exact htol
  · simp only [gives_bind, gives_readLength, gives_pure] at h
    obtain ⟨_, ⟨-, -, -, hradius⟩, _, ⟨-, -, -, hlength⟩, rfl⟩ := h
    exact ⟨hradius, hlength⟩
  · simp only [gives_bind, gives_readLengths, gives_pure] at h
    obtain ⟨_, ⟨-, -, -, htol⟩, rfl⟩ := h
    exact htol
  · simp only [gives_bind, gives_pure] at h
    obtain ⟨_, -, rfl⟩ := h
    trivial
  · simp only [readMesh, gives_bind, gives_pure, gives_requireText] at h
    obtain ⟨_, ⟨_, ⟨uri, huri, -, rfl⟩, _, -, rfl⟩, rfl⟩ := h
    refine ⟨hshape.childText? huri, fun name hname => ?_⟩
    obtain ⟨c, hc, hname⟩ := Option.bind_eq_some_iff.mp hname
    exact (hshape.child (mem_of_child? hc)).childText? hname
  · rw [gives_pure] at h
    subst h
    trivial

/-- A geometry that is read without errors is valid. -/
theorem valid_of_gives (he : e.Tidy) {g : Geometry} (h : (ofElement e).Gives policy g) :
    g.Valid policy := by
  simp only [ofElement, gives_bind] at h
  obtain ⟨-, -, h⟩ := h
  have htidy {shape : Element} {rest : List Element}
      (heq : (e.children.filter fun c => tags.contains c.tag) = shape :: rest) : shape.Tidy :=
    he.child (List.mem_of_mem_filter (heq ▸ List.mem_cons_self))
  -- no shape, one, or several, of which the first one counts
  split at h
  · rw [gives_pure] at h
    subst h
    trivial
  · next heq => exact valid_of_readShape (htidy heq) h
  · next heq =>
    simp only [gives_bind] at h
    obtain ⟨-, -, h⟩ := h
    exact valid_of_readShape (htidy heq) h

end Geometry

/-! ### Collisions and visuals -/

/-- What is checked of a collision. -/
structure Collision.Valid (policy : Policy) (c : Collision) : Prop where
  name : IsFrameName c.name
  geometry : c.geometry.Valid policy

/-- A collision that is read without errors is valid. -/
theorem Collision.valid_of_gives (he : e.Tidy) {c : Collision}
    (h : (ofElement e).Gives policy (some c)) : c.Valid policy := by
  simp only [ofElement, gives_bind, gives_readFrameName] at h
  obtain ⟨_, ⟨name, -, hname, rfl⟩, h⟩ := h
  dsimp only at h
  split at h
  · simp at h
  · next g hg =>
    simp only [gives_bind, gives_pure, Option.some.injEq] at h
    obtain ⟨_, -, -, -, _, hgeometry, rfl⟩ := h
    exact ⟨hname, Geometry.valid_of_gives (he.child (mem_of_child? hg)) hgeometry⟩

/-- What is checked of a visual. -/
structure Visual.Valid (policy : Policy) (v : Visual) : Prop where
  name : IsFrameName v.name
  geometry : v.geometry.Valid policy
  transparency : policy.Tolerates (¬ (0 ≤ v.transparency ∧ v.transparency ≤ 1))

/-- A visual that is read without errors is valid. -/
theorem Visual.valid_of_gives (he : e.Tidy) {v : Visual}
    (h : (ofElement e).Gives policy (some v)) : v.Valid policy := by
  simp only [ofElement, gives_bind, gives_readFrameName] at h
  obtain ⟨_, ⟨name, -, hname, rfl⟩, h⟩ := h
  dsimp only at h
  split at h
  · simp at h
  · next g hg =>
    simp only [gives_bind, gives_pure, gives_readShareD, Option.some.injEq] at h
    obtain ⟨_, -, -, -, _, hgeometry, _, -, _, -, _, hshare, rfl⟩ := h
    refine ⟨hname, Geometry.valid_of_gives (he.child (mem_of_child? hg)) hgeometry, ?_⟩
    rcases hshare with ⟨-, rfl⟩ | ⟨-, -, -, htol⟩
    -- the default is a share
    · have hzero : (0 : Float) ≤ 0 ∧ (0 : Float) ≤ 1 := by decide
      exact fun h => absurd hzero h
    · exact htol

/-! ### Lights -/

/-- What is checked of a light. -/
structure Light.Valid (policy : Policy) (l : Light) : Prop where
  name : l.name ≠ ""
  range : policy.Tolerates (l.attenuation.range < 0)

/-- A negative range must be tolerated. -/
theorem Light.range_of_gives {a : Attenuation} (h : (readAttenuation e).Gives policy a) :
    policy.Tolerates (a.range < 0) := by
  simp only [readAttenuation] at h
  split at h
  · rw [gives_pure] at h
    subst h
    exact fun h => absurd h (by decide)
  · simp only [gives_bind] at h
    obtain ⟨range, -, _, -, _, -, _, -, h⟩ := h
    split at h
    · simp only [gives_bind, gives_warn, gives_pure] at h
      obtain ⟨-, hwarn, rfl⟩ := h
      exact fun _ => hwarn
    · next hrange =>
      rw [gives_pure] at h
      subst h
      exact fun h => absurd h hrange

/-- A light that is read without errors is valid. -/
theorem Light.valid_of_gives {l : Light} (h : (ofElement e).Gives policy (some l)) :
    l.Valid policy := by
  simp only [ofElement, gives_bind, gives_readName] at h
  obtain ⟨_, ⟨name, -, hname, rfl⟩, h⟩ := h
  simp only [gives_bind, gives_pure, Option.some.injEq] at h
  obtain ⟨_, -, _, -, -, -, _, -, _, -, _, -, _, -, _, -, _, hatt, _, -, rfl⟩ := h
  exact ⟨hname, range_of_gives hatt⟩

/-- A light that was read has no owner yet. -/
theorem Light.owner_of_gives {l : Light} (h : (ofElement e).Gives policy (some l)) :
    l.owner = "" := by
  simp only [ofElement, gives_bind, gives_readName] at h
  obtain ⟨_, ⟨name, -, -, rfl⟩, h⟩ := h
  simp only [gives_bind, gives_pure, Option.some.injEq] at h
  obtain ⟨_, -, _, -, -, -, _, -, _, -, _, -, _, -, _, -, _, -, _, -, rfl⟩ := h
  rfl

/-! ### Links -/

/-- Objects of one kind side by side: their names differ. -/
def Distinct {α : Type} [Named α] (xs : List α) : Prop := (xs.map Named.name).Nodup

/-- Children of unknown tags as they are kept. -/
structure KeptUnknown (policy : Policy) (known : List String) (us : List Element) : Prop where
  unknown : ∀ u ∈ us, u.tag ∉ known
  accepted : ∀ u ∈ us, policy.Accepts known u
  tidy : ∀ u ∈ us, u.Tidy

/-- Children of unknown tags are tidy elements that the policy accepts. -/
theorem KeptUnknown.of_gives (he : e.Tidy) {known : List String} {us : List Element}
    (h : (e.unknownChildren known).Gives policy us) : KeptUnknown policy known us := by
  rw [gives_unknownChildren] at h
  obtain ⟨haccepts, rfl⟩ := h
  refine ⟨fun u hu => ?_, fun u hu => ?_, fun u hu => ?_⟩
  · simpa using (List.mem_filter.mp hu).2
  · exact haccepts u (List.mem_of_mem_filter hu)
  · exact he.child (List.mem_of_mem_filter hu)

namespace Link

/-- What is checked of a link. -/
structure Valid (policy : Policy) (l : Link) : Prop where
  name : IsFrameName l.name
  adopt : l.adopt = l
  inertial : ∀ i, l.inertial = some i → (i.check l.name).Gives policy ()
  collisions : ∀ c ∈ l.collisions, c.Valid policy
  visuals : ∀ v ∈ l.visuals, v.Valid policy
  lights : ∀ x ∈ l.lights, x.Valid policy
  distinct : Distinct l.collisions ∧ Distinct l.visuals ∧ Distinct l.lights
  unknown : KeptUnknown policy knownTags l.unknown

section

variable {l : Link}

/-- What a link holds knows its name. -/
theorem Valid.owner_collision (h : l.Valid policy) {c : Collision} (hc : c ∈ l.collisions) :
    c.owner = l.name := by
  rw [← congrArg Link.collisions h.adopt] at hc
  obtain ⟨c', -, rfl⟩ := List.mem_map.mp hc
  rfl

/-- The visuals of a valid link are its own. -/
theorem Valid.owner_visual (h : l.Valid policy) {v : Visual} (hv : v ∈ l.visuals) :
    v.owner = l.name := by
  rw [← congrArg Link.visuals h.adopt] at hv
  obtain ⟨v', -, rfl⟩ := List.mem_map.mp hv
  rfl

/-- The lights of a valid link are its own. -/
theorem Valid.owner_light (h : l.Valid policy) {x : Light} (hx : x ∈ l.lights) :
    x.owner = l.name := by
  rw [← congrArg Link.lights h.adopt] at hx
  obtain ⟨x', -, rfl⟩ := List.mem_map.mp hx
  rfl

end

/-- A link that has adopted its parts adopts nothing more. -/
theorem adopt_adopt (l : Link) : l.adopt.adopt = l.adopt := by
  simp [adopt]

/-- Adopting parts leaves their names. -/
theorem distinct_adopt {l : Link}
    (h : Distinct l.collisions ∧ Distinct l.visuals ∧ Distinct l.lights) :
    Distinct l.adopt.collisions ∧ Distinct l.adopt.visuals ∧ Distinct l.adopt.lights := by
  simpa [Distinct, adopt, Function.comp_def, Named.name] using h

/-- A link that is read without errors is valid, with all its parts. -/
theorem valid_of_gives (he : e.Tidy) {l : Link} (h : (ofElement e).Gives policy (some l)) :
    l.Valid policy := by
  simp only [ofElement, gives_bind, gives_readFrameName] at h
  obtain ⟨_, ⟨name, -, hname, rfl⟩, h⟩ := h
  simp only [gives_bind, gives_pure, Option.some.injEq] at h
  obtain ⟨_, -, unknown, hunknown, inertial, hinertial, cs, hcs, vs, hvs, xs, hxs, rfl⟩ := h
  obtain ⟨hcd, hcs⟩ := hcs.of_readAll
  obtain ⟨hvd, hvs⟩ := hvs.of_readAll
  obtain ⟨hxd, hxs⟩ := hxs.of_readAll
  refine ⟨hname, adopt_adopt _, ?_, ?_, ?_, ?_, distinct_adopt ⟨hcd, hvd, hxd⟩,
    .of_gives he hunknown⟩
  · rintro i hi
    obtain rfl : inertial = some i := hi
    rw [gives_readChildD] at hinertial
    obtain ⟨-, hnone⟩ | ⟨m, -, hread⟩ := hinertial
    · cases hnone
    · simp only [gives_map, Inertial.ofElement, gives_bind, gives_pure, Option.some.injEq] at hread
      obtain ⟨_, ⟨_, -, _, -, _, -, _, hcheck, rfl⟩, rfl⟩ := hread
      exact hcheck
  · intro c hc
    obtain ⟨c, hc', rfl⟩ := List.mem_map.mp hc
    obtain ⟨child, hchild, hread⟩ := hcs c hc'
    obtain ⟨hname, hgeometry⟩ := Collision.valid_of_gives (he.child hchild) hread
    exact ⟨hname, hgeometry⟩
  · intro v hv
    obtain ⟨v, hv', rfl⟩ := List.mem_map.mp hv
    obtain ⟨child, hchild, hread⟩ := hvs v hv'
    obtain ⟨hname, hgeometry, hshare⟩ := Visual.valid_of_gives (he.child hchild) hread
    exact ⟨hname, hgeometry, hshare⟩
  · intro x hx
    obtain ⟨x, hx', rfl⟩ := List.mem_map.mp hx
    obtain ⟨child, hchild, hread⟩ := hxs x hx'
    obtain ⟨hname, hrange⟩ := Light.valid_of_gives hread
    exact ⟨hname, hrange⟩

end Link

end Scene
