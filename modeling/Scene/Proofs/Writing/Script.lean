/-
Scripts that are read, written and read once more.

What a script holds after it was read is settled for good: if its element is read
again then every trajectory is kept, for the numbers differ, and every waypoint
stays where it is, for the times are in order.  Nothing is asked for this but
that the times of the waypoints are read again as what they were.  What was
written of a pose may be read as another one, or not at all; the waypoint is
still there.

Times are compared as words and not as numbers: a NaN with a sign stands before
everything and is written without the sign, so it would not stay.

Main statement: `trajectories_throughout`.
-/
import Scene.Proofs.Writing.Actor

namespace Scene

open Reported Element

/-- What is written of a numeral's value is read as a numeral of the same bits. -/
def Number.Numeral.ReadsBack (n : Numeral) : Prop :=
  ∃ m, Numeral.ofString (textOfFloat n.toFloat) = .ok m ∧ m.word .double = n.word .double

instance (n : Number.Numeral) : Decidable n.ReadsBack :=
  decidable_of_iff ((Number.Numeral.ofString (Number.textOfFloat n.toFloat)).toOption.any
    fun m => m.word .double = n.word .double) <| by
    unfold Number.Numeral.ReadsBack
    cases Number.Numeral.ofString (Number.textOfFloat n.toFloat) with
    | error e => simp [Except.toOption]
    | ok m => simp [Except.toOption]

/-! ### Waypoints -/

/-- What is read of the text of a pose, the identity if nothing can be. -/
def Pose.reread (p : Pose Float) : Pose Float :=
  (Readable.read (Writable.write p) : Except String (Pose Float)).toOption.getD .identity

namespace Waypoint

/-- The waypoint with what is read of the text of its pose. -/
def reread (w : Waypoint) : Waypoint := ⟨w.time, w.pose.reread⟩

/-- The pose of a waypoint is read again from its element. -/
theorem poseOf_toElement (w : Waypoint) : Trajectory.poseOf w.toElement = w.pose.reread := by
  rw [Trajectory.poseOf, w.grouped.value?_eq (a := w.pose) (by simp [layout]), Pose.reread]

/-- The time of a waypoint is read with the same bits. -/
theorem word_timeOf_toElement {w : Waypoint} {n : Number.Numeral} (hn : n.ReadsBack)
    (hw : w.time = n.toFloat) :
    (Trajectory.timeOf w.toElement).word .double = n.word .double := by
  obtain ⟨m, hm, hword⟩ := hn
  have hread : (Readable.read (Number.textOfFloat w.time) : Except String Number.Numeral) =
      .ok m := by
    show (Number.Numeral.ofString _).mapError Number.NumeralError.message = .ok m
    rw [hw, hm]
    rfl
  rw [Trajectory.timeOf, w.grouped.value?_eq (a := w.time) (by simp [layout])]
  exact hread ▸ hword

end Waypoint

/-! ### Trajectories -/

namespace Trajectory

/-- The trajectory with what is read of its texts. -/
def reread (t : Trajectory) : Trajectory :=
  { t with
    tension := (Number.float? (Number.textOfFloat t.tension)).getD 0
    waypoints := t.waypoints.map Waypoint.reread }

/-- What is found in the element of a trajectory is its waypoints, read again. -/
theorem found_toElement (t : Trajectory) :
    found t.toElement = t.waypoints.map fun w => (timeOf w.toElement, w.pose.reread) := by
  rw [found, t.grouped.childrenNamed (List.mem_singleton_self _), List.map_map]
  refine List.map_congr_left fun w _ => ?_
  rw [Function.comp_apply, w.poseOf_toElement]

/-- Waypoints in order stay where they are. -/
theorem waypoints_ofElement_toElement {t : Trajectory}
    {sorted : List (Number.Numeral × Pose Float)}
    (hsorted : sorted.Pairwise fun p q => p.1.rank .double ≤ q.1.rank .double)
    (hback : ∀ p ∈ sorted, p.1.ReadsBack) (hwaypoints : t.waypoints = sorted.map waypointOf) :
    (ofElement t.toElement t.id).value.waypoints = t.waypoints.map Waypoint.reread := by
  have hfound : found t.toElement = sorted.map fun p =>
      (timeOf (waypointOf p).toElement, (waypointOf p).pose.reread) := by
    simp only [found_toElement, hwaypoints, List.map_map, Function.comp_def]
  have hword : ∀ p ∈ sorted,
      (timeOf (waypointOf p).toElement).word .double = p.1.word .double :=
    fun p hp => Waypoint.word_timeOf_toElement (hback p hp) rfl
  -- so the times are in order as they are written
  have hstay : (found t.toElement).mergeSort inOrder = found t.toElement := by
    rw [hfound]
    refine List.mergeSort_of_pairwise (List.pairwise_map.mpr ?_)
    refine hsorted.imp_of_mem fun {p q} hp hq hpq => inOrder_iff.mpr ?_
    rwa [Number.Numeral.rank_eq_of_word_eq (hword p hp),
      Number.Numeral.rank_eq_of_word_eq (hword q hq)]
  rw [waypoints_ofElement, hstay, hfound, hwaypoints, List.map_map, List.map_map]
  refine List.map_congr_left fun p hp => ?_
  have htime : (timeOf (waypointOf p).toElement).toFloat = (waypointOf p).time := by
    rw [Number.Numeral.toFloat, hword p hp, waypointOf, Number.Numeral.toFloat]
  rw [Function.comp_apply, Function.comp_apply, Waypoint.reread, ← htime, waypointOf]

/-- A trajectory is read again if its waypoints are. -/
theorem ofElement_toElement {t : Trajectory}
    (h : (ofElement t.toElement t.id).value.waypoints = t.waypoints.map Waypoint.reread) :
    (ofElement t.toElement t.id).value = t.reread := by
  have htype : t.toElement.attribute? "type" = some t.animation := t.headed.attribute?
  have htension : t.toElement.attribute? "tension" = some (Number.textOfFloat t.tension) :=
    t.headed.attribute?
  simp only [ofElement, value_bind, value_pure] at h
  simp only [ofElement, value_bind, value_pure, h, htype, htension, Option.getD_some,
    Option.bind_some, reread]

/-- A trajectory that was read is read again with its waypoints where they were. -/
theorem ofElement_reread {e : Element} (id : UInt64)
    (hback : ∀ w ∈ e.childrenNamed "waypoint", (timeOf w).ReadsBack) :
    (ofElement (ofElement e id).value.toElement id).value = (ofElement e id).value.reread := by
  have hsorts := sorts_mergeSort (found e)
  refine ofElement_toElement
    (waypoints_ofElement_toElement hsorts.inOrder ?_ (waypoints_ofElement e id))
  -- each time was read from a waypoint of the element
  intro p hp
  obtain ⟨w, hw, rfl⟩ := List.mem_map.mp (hsorts.perm.mem_iff.mp hp)
  exact hback w hw

end Trajectory

/-! ### Scripts -/

namespace Script

/-- The number of a trajectory is read again. -/
theorem number?_toElement (t : Trajectory) : number? t.toElement = some t.id := by
  have hid : t.toElement.attribute? "id" = some (Writable.write t.id) := t.headed.attribute?
  have hread : (Readable.read (Writable.write t.id) : Except String UInt64) = .ok t.id :=
    (faithful_uint64 t.id).read
  rw [number?, hid, Option.bind_some, hread]
  rfl

/-- Trajectories of different numbers are all kept. -/
theorem loaded_toElement {ts : List Trajectory} (hdistinct : (ts.map Trajectory.id).Nodup) :
    loaded (ts.map Trajectory.toElement) =
      ts.map fun t => (Trajectory.ofElement t.toElement t.id).value := by
  have hnumbered : (ts.map Trajectory.toElement).filterMap (fun e => (number? e).map (e, ·)) =
      ts.map fun t => (t.toElement, t.id) := by
    simp only [List.filterMap_map, Function.comp_def, number?_toElement, Option.map_some,
      List.filterMap_eq_map']
  -- the numbers differ, so each trajectory is the first of its own
  have hfirsts : firsts Prod.snd (ts.map fun t => (t.toElement, t.id)) = _ :=
    firsts_eq_self_iff.mpr (by rwa [List.map_map])
  rw [loaded, accepted, hnumbered, hfirsts, List.map_map]
  rfl

/-- Trajectories with distinct numbers are all read again. -/
theorem trajectories_toElement {s : Script} (hdistinct : (s.trajectories.map Trajectory.id).Nodup) :
    (ofElement s.toElement).value.trajectories =
      s.trajectories.map fun t => (Trajectory.ofElement t.toElement t.id).value := by
  have hparts : ("trajectory", s.trajectories.map Trajectory.toElement) ∈ s.layout := by
    simp [layout]
  rw [trajectories_ofElement, s.grouped.childrenNamed hparts, loaded_toElement hdistinct]

/-- **Which trajectories a script keeps, and in which order their waypoints are.**
Of the trajectories with a number that can be read the first of each number is
kept, in document order.  One more is kept exactly if it is not dropped, and a
dropped one gives one error, whose code says why; all else that is reported is
about fields.  The waypoints of each are those that are found, put in order.  So if
the times are read again as what they were, then a script that is written and read
once more has the same trajectories, and each has its waypoints as they stood. -/
theorem trajectories_throughout (e : Element) :
    ((ofElement e).value.trajectories =
      (accepted (e.childrenNamed "trajectory")).map fun p => (Trajectory.ofElement p.1 p.2).value) ∧
    ((ofElement e).reports = fieldReports e ++ accounts [] (e.childrenNamed "trajectory")) ∧
    (∀ before c, accepted (before ++ [c]) = accepted before ↔ dropError? before c ≠ none) ∧
    (∀ before c, (dropError? before c).map Error.code = match c.attribute? "id", number? c with
      | none, _ => some .attributeMissing
      | some _, none => some .attributeInvalid
      | some _, some id => if id ∈ taken before then some .duplicateName else none) ∧
    (∀ c id, ∃ sorted, Trajectory.Sorts (Trajectory.found c) sorted ∧
      (Trajectory.ofElement c id).value.waypoints = sorted.map Trajectory.waypointOf) ∧
    ((∀ p ∈ accepted (e.childrenNamed "trajectory"), ∀ w ∈ p.1.childrenNamed "waypoint",
        (Trajectory.timeOf w).ReadsBack) →
      (ofElement (ofElement e).value.toElement).value.trajectories =
        (ofElement e).value.trajectories.map Trajectory.reread) := by
  refine ⟨trajectories_ofElement e, reports_ofElement e, accepted_concat_eq_iff, code_dropError?,
    ?_, ?_⟩
  · intro c id
    exact ⟨_, Trajectory.sorts_mergeSort _, Trajectory.waypoints_ofElement c id⟩
  · intro hback
    rw [trajectories_toElement (valid_ofElement e).distinct]
    refine List.map_congr_left fun t ht => ?_
    rw [trajectories_ofElement] at ht
    obtain ⟨p, hp, rfl⟩ := List.mem_map.mp ht
    exact Trajectory.ofElement_reread p.2 (hback p hp)

/-- A waypoint with a text for its time. -/
def waypointAt (time : String) : Element :=
  { tag := "waypoint", children := [{ tag := "time", text := some time }] }

/-- A script of five trajectories.  One has no number, one has none that can be read,
and one has the number of another one. -/
def patrol : Element where
  tag := "script"
  children :=
    [{ tag := "trajectory" },
      { tag := "trajectory", attributes := [("id", "7")]
        children := [waypointAt "2", { tag := "waypoint" }, waypointAt "0.5", waypointAt "2.0"] },
      { tag := "trajectory", attributes := [("id", "seven")] },
      { tag := "trajectory", attributes := [("id", "7")], children := [waypointAt "1"] },
      { tag := "trajectory", attributes := [("id", "4")], children := [waypointAt "1"] }]

/-- Only trajectories that are there are accepted. -/
theorem mem_of_mem_accepted {es : List Element} {p : Element × UInt64} (h : p ∈ accepted es) :
    p.1 ∈ es := by
  obtain ⟨e, he, hp⟩ := List.mem_filterMap.mp ((firsts_sublist _ _).subset h)
  obtain ⟨id, -, rfl⟩ := Option.map_eq_some_iff.mp hp
  exact he

/-- Two trajectories of the five are kept, in document order, and they are still
there when they are written and read again. -/
theorem trajectories_throughout_patrol :
    (∀ p ∈ accepted (patrol.childrenNamed "trajectory"), ∀ w ∈ p.1.childrenNamed "waypoint",
      (Trajectory.timeOf w).ReadsBack) ∧
    (ofElement patrol).value.trajectories.map Trajectory.id = [7, 4] ∧
    ((ofElement patrol).errors .standard).map Error.code =
      [.attributeMissing, .attributeInvalid, .duplicateName] ∧
    (ofElement (ofElement patrol).value.toElement).value.trajectories =
      (ofElement patrol).value.trajectories.map Trajectory.reread := by
  have hall : ∀ c ∈ patrol.childrenNamed "trajectory", ∀ w ∈ c.childrenNamed "waypoint",
      (Trajectory.timeOf w).ReadsBack := by decide +kernel
  have hback : ∀ p ∈ accepted (patrol.childrenNamed "trajectory"),
      ∀ w ∈ p.1.childrenNamed "waypoint", (Trajectory.timeOf w).ReadsBack :=
    fun p hp => hall p.1 (mem_of_mem_accepted hp)
  obtain ⟨-, -, -, -, -, hreread⟩ := trajectories_throughout patrol
  exact ⟨hback, by decide +kernel, by decide +kernel, hreread hback⟩

end Script

end Scene
