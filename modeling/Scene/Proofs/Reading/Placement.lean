/-
Poses that are read in two ways.

The pose of an object stands in an element that may say how it is written; the
pose of a waypoint is the text alone.  Where nothing is said, or what goes without
saying, the two readings agree on every text: they give the same pose, or they
fail for the same reason and only word it differently (`poseOfText_eq`).  One of
them puts the numbers into a row and counts, the other one collects them all and
then looks at their number, so that they agree is a fact about rows of words of
any length.

A text that is no pose does not keep an object from being read: it then stands at
the identity of the frame that is named, and there is one error.

Main statement: `readPlacement_plain`.
-/
import Scene.Proofs.Reading.Value
import Scene.Proofs.Value.Tuple
import Scene.Reading.Actor

namespace Scene

/-! ### Texts of poses -/

/-- The words in which a pose element says what is wrong with its text. -/
def ValueError.inPose : ValueError → String
  | .invalidNumber word _ => s!"invalid number '{word}'"
  | .wrongArity _ expected actual => s!"expected {expected} values, got {actual}"

/-- A text is no pose for the reason for which it is no row of six numbers. -/
theorem Pose.ofString_eq_error_iff {text : String} {error : ValueError} :
    Pose.ofString text = .error error ↔ readTuple "pose" 6 text = .error error := by
  unfold ofString
  cases readTuple "pose" 6 text with
  | ok row => exact iff_of_false nofun nofun
  | error error' => simp only [Except.map, Except.error.injEq]

namespace Element

/-- Numbers in front are read, whatever follows them. -/
theorem mapM_poseNumber_append {ws : List String} {xs : List Float}
    (h : ws.map Number.float? = xs.map some) (rest : List String) :
    (ws ++ rest).mapM poseNumber = (rest.mapM poseNumber).map (xs ++ ·) := by
  -- words and numbers go together one for one
  induction ws generalizing xs with
  | nil =>
    cases xs with
    | nil =>
      rw [List.nil_append]
      cases rest.mapM poseNumber with
      | error message => rfl
      | ok values => rfl
    | cons x xs => cases h
  | cons w ws ih =>
    cases xs with
    | nil => cases h
    | cons x xs =>
      rw [List.map_cons, List.map_cons, List.cons.injEq] at h
      rw [List.cons_append, List.mapM_cons, ih h.2, poseNumber, h.1]
      cases rest.mapM poseNumber with
      | error message => rfl
      | ok values => rfl

/-- A row of numerals is read as the numbers that they spell. -/
theorem mapM_poseNumber_of_spell {ws : List String} {xs : List Float}
    (h : ws.map Number.float? = xs.map some) : ws.mapM poseNumber = .ok xs := by
  have := mapM_poseNumber_append h []
  rw [List.append_nil] at this
  rw [this]
  exact congrArg Except.ok (List.append_nil xs)

/-- The first word that is no numeral is the one complained about. -/
theorem mapM_poseNumber_of_bad {before after : List String} {word : String} {xs : List Float}
    (h : before.map Number.float? = xs.map some) (hbad : Number.float? word = none) :
    (before ++ word :: after).mapM poseNumber = .error s!"invalid number '{word}'" := by
  rw [mapM_poseNumber_append h, List.mapM_cons, poseNumber, hbad]
  rfl

/-- **A pose element that says nothing of its own is read like a pose.** -/
theorem poseOfText_eq {e : Element}
    (hformat : e.attribute? "rotation_format" = none ∨
      e.attribute? "rotation_format" = some "euler_rpy")
    (hdegrees : (e.attribute? "degrees").bind readFlag? ≠ some true) (text : String) :
    e.poseOfText text = (Pose.ofString text).mapError ValueError.inPose := by
  have hrpy : (e.attribute? "rotation_format").getD "euler_rpy" = "euler_rpy" := by
    rcases hformat with h | h
    · rw [h]; rfl
    · rw [h]; rfl
  unfold poseOfText Pose.ofString
  obtain ⟨xs, hxs⟩ | ⟨before, word, after, xs, hwords, hxs, hbad⟩ :=
    Number.spell_or_first_bad (Text.words text)
  · rw [mapM_poseNumber_of_spell hxs, readTuple_of_spell hxs, hrpy]
    simp only [bind, Except.bind]
    -- the numbers are six, or their count is blamed by both
    split
    · next x y z roll pitch yaw => simp [hdegrees, Except.map, Except.mapError]
    · next hother =>
      have hlength : xs.length ≠ 6 := by
        intro h
        match xs, h with
        | [x, y, z, roll, pitch, yaw], _ => exact hother x y z roll pitch yaw rfl
      rw [dif_neg hlength]
      rfl
  · rw [hwords, mapM_poseNumber_of_bad hxs hbad, readTuple_of_bad hwords hxs hbad]
    rfl

/-- A pose that can be read is read with nothing reported, and one that cannot is
the identity, with one error. -/
theorem readPlacement_eq {e p : Element} (hpose : e.child? "pose" = some p)
    (htext : Text.trim (p.text.getD "") ≠ "")
    (hformat : p.attribute? "rotation_format" = none ∨
      p.attribute? "rotation_format" = some "euler_rpy")
    (hdegrees : (p.attribute? "degrees").bind readFlag? ≠ some true) :
    e.readPlacement =
      match Pose.ofString (p.text.getD "") with
      | .ok pose => ⟨{ pose, relativeTo := (p.attribute? "relative_to").getD "" }, []⟩
      | .error error =>
        ⟨{ relativeTo := (p.attribute? "relative_to").getD "" },
          [.error (.invalidElement "pose" e.describe error.inPose)]⟩ := by
  have hblank : (Text.trim (p.text.getD "")).isEmpty = false := by simpa using htext
  unfold readPlacement
  simp only [hpose, hblank, Bool.false_eq_true, if_false, poseOfText_eq hformat hdegrees]
  cases Pose.ofString (p.text.getD "") with
  | ok pose => rfl
  | error error => rfl

end Element

/-! ### Poses of waypoints -/

/-- The pose of a waypoint is what is read of the text alone. -/
theorem Trajectory.pose_readWaypoint {w c : Element} (hpose : w.child? "pose" = some c) :
    (readWaypoint w).value.2 = (Pose.ofString (c.text.getD "")).toOption.getD .identity := by
  have hvalue : (readWaypoint w).value.2 = (w.value? "pose").getD (.identity : Pose Float) := by
    simp only [readWaypoint, Reported.value_bind, Reported.value_pure, Element.value_readValueD]
  rw [hvalue, Element.value?, hpose]
  show (((Pose.ofString (c.text.getD "")).mapError ValueError.message).toOption).getD _ = _
  cases Pose.ofString (c.text.getD "") with
  | ok pose => rfl
  | error error => rfl

namespace Element

/-- **The pose of an object is read like that of a waypoint.**  Let an element have
a pose with some text, written in the way that goes without saying.  Then the
object has a pose with nothing reported exactly if the text alone is one, and it is
that pose.  If the text is no pose, the object is at the identity, and there is one
error.  In either case the frame is the one that is named.  Both readings blame the
first word that is no number, and if there is none the number of words.  So a
waypoint of the same text has the same pose. -/
theorem readPlacement_plain {e p : Element} (hpose : e.child? "pose" = some p)
    (htext : Text.trim (p.text.getD "") ≠ "")
    (hformat : p.attribute? "rotation_format" = none ∨
      p.attribute? "rotation_format" = some "euler_rpy")
    (hdegrees : (p.attribute? "degrees").bind readFlag? ≠ some true) :
    let text := p.text.getD ""
    (∀ pose, e.readPlacement.value.pose = pose ∧ e.readPlacement.reports = [] ↔
      Pose.ofString text = .ok pose) ∧
    e.readPlacement.value.relativeTo = (p.attribute? "relative_to").getD "" ∧
    (∀ error, Pose.ofString text = .error error →
      e.readPlacement.value.pose = .identity ∧
      ∃ message,
        e.readPlacement.reports = [.error (.invalidElement "pose" e.describe message)] ∧
        ((∃ before word after, Text.words text = before ++ word :: after ∧
            (∀ w ∈ before, (Number.float? w).isSome = true) ∧ Number.float? word = none ∧
            error = .invalidNumber word "pose" ∧ message = s!"invalid number '{word}'") ∨
          ((∀ w ∈ Text.words text, (Number.float? w).isSome = true) ∧
            (Text.words text).length ≠ 6 ∧
            error = .wrongArity "pose" 6 (Text.words text).length ∧
            message = s!"expected 6 values, got {(Text.words text).length}"))) ∧
    ∀ w c, w.child? "pose" = some c → c.text.getD "" = text →
      (Trajectory.readWaypoint w).value.2 = e.readPlacement.value.pose := by
  intro text
  have heq := readPlacement_eq hpose htext hformat hdegrees
  cases hread : Pose.ofString text with
  | ok pose =>
    rw [hread] at heq
    refine ⟨?_, by rw [heq], nofun, ?_⟩
    · intro pose'
      rw [heq, Except.ok.injEq]
      exact and_iff_left rfl
    · intro w c hc htext'
      rw [Trajectory.pose_readWaypoint hc, htext', hread, heq]
      rfl
  | error error =>
    rw [hread] at heq
    refine ⟨?_, by rw [heq], ?_, ?_⟩
    · intro pose
      rw [heq]
      exact iff_of_false (fun h => List.cons_ne_nil _ _ h.2) nofun
    · rintro _ ⟨⟩
      refine ⟨by rw [heq], error.inPose, by rw [heq], ?_⟩
      -- the error is that of the row of six numbers
      obtain ⟨before, word, after, hwords, hbefore, hbad, rfl⟩ | ⟨hall, hlength, rfl⟩ :=
        readTuple_eq_error_iff.mp (Pose.ofString_eq_error_iff.mp hread)
      · exact .inl ⟨before, word, after, hwords, hbefore, hbad, rfl, rfl⟩
      · exact .inr ⟨hall, hlength, rfl, rfl⟩
    · intro w c hc htext'
      rw [Trajectory.pose_readWaypoint hc, htext', hread, heq]
      rfl

/-- The words of a pose with too many numbers, and something else among them. -/
def overlongPose : Element :=
  { tag := "pose", attributes := [("relative_to", "base"), ("degrees", "0")]
    text := some "1 2 3 0 0 0 7 up 9" }

/-- A word behind the sixth number is blamed, and not the number of words. -/
theorem readPlacement_plain_overlong :
    let e : Element :=
      { tag := "visual", attributes := [("name", "shell")], children := [overlongPose] }
    let waypoint : Element := { tag := "waypoint", children := [overlongPose] }
    Text.trim (overlongPose.text.getD "") ≠ "" ∧
    (overlongPose.attribute? "degrees").bind readFlag? ≠ some true ∧
    Pose.ofString (overlongPose.text.getD "") = .error (.invalidNumber "up" "pose") ∧
    e.readPlacement.value.pose = .identity ∧
    e.readPlacement.value.relativeTo = "base" ∧
    e.readPlacement.reports =
      [.error (.invalidElement "pose" "visual 'shell'" "invalid number 'up'")] ∧
    (Trajectory.readWaypoint waypoint).value.2 = .identity := by
  intro e waypoint
  have htext : Text.trim (overlongPose.text.getD "") ≠ "" := by decide
  have hdegrees : (overlongPose.attribute? "degrees").bind readFlag? ≠ some true := by decide
  have hread : Pose.ofString (overlongPose.text.getD "") = .error (.invalidNumber "up" "pose") := by
    rfl
  obtain ⟨-, hframe, herror, hwaypoint⟩ :=
    readPlacement_plain (e := e) (p := overlongPose) rfl htext (.inl rfl) hdegrees
  obtain ⟨hpose, message, hreports, hcause⟩ := herror _ hread
  refine ⟨htext, hdegrees, hread, hpose, hframe, ?_, ?_⟩
  · obtain ⟨before, word, after, -, -, -, hword, rfl⟩ | ⟨-, -, hcount, -⟩ := hcause
    · cases hword
      exact hreports
    · cases hcount
  · rw [hwaypoint waypoint overlongPose rfl rfl, hpose]

end Element

end Scene
