/-
Values that stand in a document.

A value is *faithful* if its text is tidy, so that it can stand in a document,
and is read as the value, and if it equals itself, as a NaN does not.

Of a number it is required that it reads back and is no NaN, which is to say that it
is no NaN (`readsBack_iff`), and a row of such numbers is faithful.  A pose need not
be: it is written by three angles, and it is required that the rotation built from
them is the same one.
-/
import Scene.Proofs.Reading.Placement
import Scene.Proofs.Value.Text

namespace Scene

/-! ### What is required -/

/-- The digits of a number are read as the number, which is no NaN. -/
def Number.ReadsBack (x : Float) : Prop :=
  Number.float? (Number.textOfFloat x) = some x ∧ (x == x) = true

/-- The same at single width. -/
def Number.ReadsBack32 (x : Float32) : Prop :=
  Number.float32? (Number.textOfFloat32 x) = some x ∧ (x == x) = true

/-- Every number reads back, and NaN alone does not equal itself. -/
theorem Number.readsBack_iff {x : Float} : ReadsBack x ↔ (x == x) = true :=
  and_iff_right (float?_textOfFloat x)

/-- The same at single width. -/
theorem Number.readsBack32_iff {x : Float32} : ReadsBack32 x ↔ (x == x) = true :=
  and_iff_right (float32?_textOfFloat32 x)

instance (x : Float) : Decidable (Number.ReadsBack x) := decidable_of_iff _ Number.readsBack_iff.symm

instance (x : Float32) : Decidable (Number.ReadsBack32 x) :=
  decidable_of_iff _ Number.readsBack32_iff.symm

/-- Each component is read from its digits. -/
def Vec3.ReadsBack (v : Vec3 Float) : Prop :=
  Number.ReadsBack v.x ∧ Number.ReadsBack v.y ∧ Number.ReadsBack v.z

/-- Both components are read from their digits. -/
def Vec2.ReadsBack (v : Vec2 Float) : Prop := Number.ReadsBack v.x ∧ Number.ReadsBack v.y

/-- Each channel is read from its digits, opacity included. -/
def Color.ReadsBack (c : Color) : Prop :=
  Number.ReadsBack32 c.r ∧ Number.ReadsBack32 c.g ∧ Number.ReadsBack32 c.b ∧
    Number.ReadsBack32 c.a

instance (v : Vec3 Float) : Decidable v.ReadsBack := inferInstanceAs (Decidable (_ ∧ _ ∧ _))

instance (c : Color) : Decidable c.ReadsBack := inferInstanceAs (Decidable (_ ∧ _ ∧ _ ∧ _))

/-- What is read of the text of a pose is the same pose. -/
def Pose.ReadsBack (p : Pose Float) : Prop :=
  ∃ q, Pose.ofString p.text = .ok q ∧ (p == q) = true

/-- A value that is written and read as it is. -/
structure Faithful {α : Type} [Readable α] [Writable α] [BEq α] (a : α) : Prop where
  tidy : Text.IsTidy (Writable.write a)
  read : Readable.read (Writable.write a) = .ok a
  refl : (a == a) = true

/-! ### Single values -/

/-- A word is a number exactly if it is a numeral of that value. -/
theorem Number.float?_eq_some_iff {word : String} {x : Float} :
    float? word = some x ↔ ∃ n, Numeral.ofString word = .ok n ∧ n.toFloat = x := by
  unfold float?
  cases Numeral.ofString word with
  | error e => simp [Except.toOption]
  | ok n => simp [Except.toOption]

/-- The time of a waypoint is read as a numeral of its value. -/
theorem Number.ReadsBack.exists_numeral {x : Float} (h : ReadsBack x) :
    ∃ n : Numeral, Readable.read (textOfFloat x) = .ok n ∧ n.toFloat = x := by
  obtain ⟨n, hn, hx⟩ := float?_eq_some_iff.mp h.1
  refine ⟨n, ?_, hx⟩
  show (Numeral.ofString (textOfFloat x)).mapError NumeralError.message = .ok n
  rw [hn]
  rfl

/-- A number that is no NaN is faithful. -/
theorem Number.ReadsBack.faithful {x : Float} (h : ReadsBack x) : Faithful x where
  tidy := (isWord_textOfFloat x).isTidy
  read := by
    obtain ⟨n, hn, hx⟩ := h.exists_numeral
    show (Readable.read (textOfFloat x)).map Numeral.toFloat = .ok x
    rw [hn, ← hx]
    rfl
  refl := h.2

/-- Every natural number of 64 bits is faithful. -/
theorem faithful_uint64 (n : UInt64) : Faithful n where
  tidy := (Number.isWord_toString n.toNat).isTidy
  read := by
    -- a number of 64 bits is in the range of its reader
    have hle : n.toNat ≤ 2 ^ 64 - 1 := Nat.le_pred_of_lt n.toNat_lt
    show ((Number.readNatural (2 ^ 64 - 1) (toString n.toNat).toList).map Nat.toUInt64).mapError
      Number.IntegerError.message = .ok n
    rw [Number.readNatural_toString hle]
    exact congrArg Except.ok (UInt64.ofNat_toNat)
  refl := beq_self_eq_true n

theorem readFlag?_write (b : Bool) : readFlag? (Writable.write b) = some b := by
  cases b with
  | false => decide
  | true => decide

theorem isTidy_write_bool (b : Bool) : Text.IsTidy (Writable.write b) := by
  cases b with
  | false => exact ⟨by decide, by decide⟩
  | true => exact ⟨by decide, by decide⟩

/-! ### Rows of numbers -/

/-- A vector is faithful if its components are numbers. -/
theorem Vec3.ReadsBack.faithful {v : Vec3 Float} (h : v.ReadsBack) : Faithful v where
  tidy := by
    show Text.IsTidy (textOfTuple [v.x, v.y, v.z])
    exact isTidy_textOfTuple (by simp)
  read := by
    show (Vec3.ofString v.text).mapError ValueError.message = .ok v
    rw [v.ofString_text]
    rfl
  refl := by
    obtain ⟨⟨-, hx⟩, ⟨-, hy⟩, ⟨-, hz⟩⟩ := h
    show (v.x == v.x && (v.y == v.y && v.z == v.z)) = true
    rw [hx, hy, hz]
    rfl

/-- The same in the plane. -/
theorem Vec2.ReadsBack.faithful {v : Vec2 Float} (h : v.ReadsBack) : Faithful v where
  tidy := by
    show Text.IsTidy (textOfTuple [v.x, v.y])
    exact isTidy_textOfTuple (by simp)
  read := by
    show (Vec2.ofString v.text).mapError ValueError.message = .ok v
    rw [v.ofString_text]
    rfl
  refl := by
    obtain ⟨⟨-, hx⟩, ⟨-, hy⟩⟩ := h
    show (v.x == v.x && v.y == v.y) = true
    rw [hx, hy]
    rfl

/-- A color is faithful if its channels are numbers. -/
theorem Color.ReadsBack.faithful {c : Color} (h : c.ReadsBack) : Faithful c where
  tidy := by
    show Text.IsTidy c.text
    exact Text.isTidy_intercalate (by simp) fun w hw => by
      obtain ⟨x, -, rfl⟩ := List.mem_map.mp hw
      exact Number.isWord_text _ _
  read := by
    show (Color.ofString c.text).mapError ValueError.message = .ok c
    rw [c.ofString_text]
    rfl
  refl := by
    obtain ⟨⟨-, hr⟩, ⟨-, hg⟩, ⟨-, hb⟩, ⟨-, ha⟩⟩ := h
    show (c.r == c.r && (c.g == c.g && (c.b == c.b && c.a == c.a))) = true
    rw [hr, hg, hb, ha]
    rfl

/-! ### Poses -/

theorem Pose.isTidy_text (p : Pose Float) : Text.IsTidy p.text := isTidy_textOfTuple (by simp)

/-- The place of an object without attributes of its own is read like a pose. -/
theorem poseOfText_of_ofString {e : Element} (hformat : e.attribute? "rotation_format" = none)
    (hdegrees : e.attribute? "degrees" = none) {text : String} {p : Pose Float}
    (h : Pose.ofString text = .ok p) : e.poseOfText text = .ok p := by
  have hplain : (e.attribute? "degrees").bind readFlag? ≠ some true := by
    rw [hdegrees]
    exact nofun
  rw [Element.poseOfText_eq (.inl hformat) hplain, h]
  rfl

end Scene
