/-
Values that read back.

Every number is read as it was written, and its text is one word.  So the words of a
row are the texts of its numbers, whatever these are, and the row is read as it was,
with the infinities and NaN in it.

A pose is written by its position and three angles, and no zero among these has a
sign.  What is read is the pose that these six numbers make.

Main statement: `texts_readBack`.
-/
import Scene.Proofs.Number.ReadBack
import Scene.Proofs.Value.Tuple
import Scene.Value.Color
import Scene.Value.PoseText

namespace Scene

/-! ### Rows of numbers -/

theorem Number.isWord_textOfFloat (x : Float) : Text.IsWord (textOfFloat x) := isWord_text _ _

/-- A row of numbers is written with one word for each. -/
theorem words_textOfTuple (values : List Float) :
    Text.words (textOfTuple values) = values.map Number.textOfFloat :=
  Text.words_intercalate fun w hw => by
    obtain ⟨x, -, rfl⟩ := List.mem_map.mp hw
    exact Number.isWord_textOfFloat x

/-- Its text is tidy, unless the row is empty. -/
theorem isTidy_textOfTuple {values : List Float} (h : values ≠ []) :
    Text.IsTidy (textOfTuple values) :=
  Text.isTidy_intercalate (by simpa using h) fun w hw => by
    obtain ⟨x, -, rfl⟩ := List.mem_map.mp hw
    exact Number.isWord_textOfFloat x

/-- A row is read as it was written. -/
theorem readTuple_textOfTuple {kind : String} {values : List Float} {n : Nat}
    (h : values.length = n) :
    readTuple kind n (textOfTuple values) = .ok ⟨values.toArray, h⟩ := by
  have hspell : (Text.words (textOfTuple values)).map Number.float? = values.map some := by
    rw [words_textOfTuple, List.map_map]
    exact List.map_congr_left fun x _ => Number.float?_textOfFloat x
  rw [readTuple_of_spell hspell, dif_pos h]

/-- Every vector is read from its text. -/
theorem Vec3.ofString_text (v : Vec3 Float) : ofString v.text = .ok v := by
  rw [ofString, text, readTuple_textOfTuple (show [v.x, v.y, v.z].length = 3 from rfl)]
  rfl

/-- The infinities and NaN are words like others. -/
example : (⟨0.1, -1 / 0, 0 / 0⟩ : Vec3 Float).text = "0.1 -inf NaN" ∧
    Vec3.ofString "0.1 -inf NaN" = .ok ⟨0.1, -1 / 0, 0 / 0⟩ := ⟨by rfl, by rfl⟩

/-- The same in the plane. -/
theorem Vec2.ofString_text (v : Vec2 Float) : ofString v.text = .ok v := by
  rw [ofString, text, readTuple_textOfTuple (show [v.x, v.y].length = 2 from rfl)]
  rfl

/-! ### Colors -/

namespace Color

theorem words_text (c : Color) :
    Text.words c.text = [c.r, c.g, c.b, c.a].map Number.textOfFloat32 :=
  Text.words_intercalate fun w hw => by
    obtain ⟨x, -, rfl⟩ := List.mem_map.mp hw
    exact Number.isWord_text _ _

theorem component_textOfFloat32 (x : Float32) : component (Number.textOfFloat32 x) = .ok x := by
  rw [component, Number.float32?_textOfFloat32]

/-- Every color is read from its text. -/
theorem ofString_text (c : Color) : ofString c.text = .ok c := by
  rw [ofString, words_text]
  simp only [List.map_cons, List.map_nil, List.mapM_cons, List.mapM_nil, component_textOfFloat32]
  rfl

end Color

/-! ### Poses -/

/-- The same number, or zero in either case. -/
def Number.SameUnsigned (x y : Float) : Prop := x = y ∨ (x == 0) = true ∧ (y == 0) = true

/-- The same vector, but for signs of zeros. -/
def Vec3.SameUnsigned (v u : Vec3 Float) : Prop :=
  Number.SameUnsigned v.x u.x ∧ Number.SameUnsigned v.y u.y ∧ Number.SameUnsigned v.z u.z

instance (x y : Float) : Decidable (Number.SameUnsigned x y) :=
  inferInstanceAs (Decidable (_ ∨ _ ∧ _))

instance (v u : Vec3 Float) : Decidable (v.SameUnsigned u) :=
  inferInstanceAs (Decidable (_ ∧ _ ∧ _))

namespace Pose

/-- The position and the three angles. -/
def components (p : Pose Float) : List Float :=
  [p.position.x, p.position.y, p.position.z, p.angles.x, p.angles.y, p.angles.z]

theorem text_eq (p : Pose Float) : p.text = textOfTuple (p.components.map unsignedZero) := rfl

/-- A vector without signs of zeros. -/
def unsigned (v : Vec3 Float) : Vec3 Float := ⟨unsignedZero v.x, unsignedZero v.y, unsignedZero v.z⟩

/-- A number loses nothing but the sign of a zero. -/
theorem sameUnsigned_unsignedZero (x : Float) : Number.SameUnsigned (unsignedZero x) x := by
  unfold unsignedZero
  split
  · next h => exact .inr ⟨by decide, h⟩
  · exact .inl rfl

theorem sameUnsigned_unsigned (v : Vec3 Float) : (unsigned v).SameUnsigned v :=
  ⟨sameUnsigned_unsignedZero _, sameUnsigned_unsignedZero _, sameUnsigned_unsignedZero _⟩

/-- What is read is the pose of the six numbers that were written. -/
theorem ofString_text (p : Pose Float) :
    ofString p.text = .ok (.ofEuler (unsigned p.position) (unsigned p.angles)) := by
  rw [ofString, text_eq, readTuple_textOfTuple (n := 6) (by simp [components])]
  rfl

/-- The negative zero is the only number that is written so. -/
theorem textOfFloat_unsignedZero_ne (x : Float) : Number.textOfFloat (unsignedZero x) ≠ "-0" := by
  intro h
  -- what is written is read back, so this text would be read as the negative zero
  have hread := Number.float?_textOfFloat (unsignedZero x)
  have hzero : Number.float? "-0" = some (-0) := by decide
  rw [h, hzero, Option.some.injEq] at hread
  unfold unsignedZero at hread
  split at hread
  · exact absurd hread (by decide)
  · next hne =>
    rw [← hread] at hne
    exact hne (by decide)

end Pose

/-- **Texts read back.**  Every number is written as one word that is read as the same
number, so vectors and colors are read as they were written, the opacity and NaNs
included.  A pose is written as six words with one space between them, none of them
`-0`, and what is read has its position and the rotation of its angles, but for signs
of zeros among the six numbers. -/
theorem texts_readBack :
    (∀ x, Text.IsWord (Number.textOfFloat x) ∧ Number.float? (Number.textOfFloat x) = some x) ∧
    (∀ x, Text.IsWord (Number.textOfFloat32 x) ∧
      Number.float32? (Number.textOfFloat32 x) = some x) ∧
    (∀ v, Vec3.ofString v.text = .ok v) ∧
    (∀ v, Vec2.ofString v.text = .ok v) ∧
    (∀ c, Color.ofString c.text = .ok c) ∧
    ∀ p : Pose Float,
      (∃ position angles : Vec3 Float,
        position.SameUnsigned p.position ∧ angles.SameUnsigned p.angles ∧
          Pose.ofString p.text = .ok (.ofEuler position angles)) ∧
      ∃ words : List String, words.length = 6 ∧ p.text = " ".intercalate words ∧
        (∀ w ∈ words, Text.IsWord w) ∧ "-0" ∉ words := by
  refine ⟨fun x => ⟨Number.isWord_textOfFloat x, Number.float?_textOfFloat x⟩,
    fun x => ⟨Number.isWord_text _ _, Number.float32?_textOfFloat32 x⟩, Vec3.ofString_text,
    Vec2.ofString_text, Color.ofString_text, fun p => ⟨?_, ?_⟩⟩
  · exact ⟨_, _, Pose.sameUnsigned_unsigned _, Pose.sameUnsigned_unsigned _, p.ofString_text⟩
  · refine ⟨(p.components.map Pose.unsignedZero).map Number.textOfFloat, by simp [Pose.components],
      p.text_eq, fun w hw => ?_, fun hw => ?_⟩
    · obtain ⟨x, -, rfl⟩ := List.mem_map.mp hw
      exact Number.isWord_textOfFloat x
    · obtain ⟨y, hy, hminus⟩ := List.mem_map.mp hw
      obtain ⟨x, -, rfl⟩ := List.mem_map.mp hy
      exact Pose.textOfFloat_unsignedZero_ne x hminus

end Scene
