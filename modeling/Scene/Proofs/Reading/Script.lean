/-
Scripts as they are read.

Of the trajectories of a script those are kept that have a number which can be
read and which no kept one has before them; for each of the others there is one
error.  So what is kept is the first trajectory of each number (`accepted`), and
the reports go through the trajectories one by one (`accounts`).

The waypoints of a trajectory are read one by one, each with a time and a pose
whatever is wrong with it, and are then put in the order of their times.  That
says how often each of them is there, and where; of equal times it says more,
namely that they stay as they were (`Sorts`).
-/
import Scene.Proofs.Firsts
import Scene.Proofs.Reading.Gives
import Scene.Proofs.Reading.Value
import Scene.Reading.Actor

namespace Scene

open Reported Element

/-! ### Waypoints -/

namespace Trajectory

/-- The time of a waypoint, zero if there is none or it cannot be read. -/
def timeOf (w : Element) : Number.Numeral := (w.value? "time").getD .zero

/-- The pose of a waypoint, the identity if there is none or it cannot be read. -/
def poseOf (w : Element) : Pose Float := (w.value? "pose").getD .identity

/-- The waypoints of a trajectory, in document order. -/
def found (e : Element) : List (Number.Numeral × Pose Float) :=
  (e.childrenNamed "waypoint").map fun w => (timeOf w, poseOf w)

/-- The waypoint of a time and a pose. -/
def waypointOf (p : Number.Numeral × Pose Float) : Waypoint := ⟨p.1.toFloat, p.2⟩

/-- What is reported of the waypoints of a trajectory. -/
def waypointReports (e : Element) : List Report :=
  (e.childrenNamed "waypoint").flatMap fun w =>
    (w.readValueD "time" Number.Numeral.zero).reports ++
      (w.readValueD "pose" (Pose.identity : Pose Float)).reports

/-- A waypoint has a time and a pose, each with its usual value where it is not
read. -/
theorem value_readWaypoint (w : Element) : (readWaypoint w).value = (timeOf w, poseOf w) := by
  simp only [readWaypoint, value_bind, value_pure, value_readValueD]
  rfl

/-- What is reported of the time comes before what is reported of the pose. -/
theorem reports_readWaypoint (w : Element) : (readWaypoint w).reports =
    (w.readValueD "time" Number.Numeral.zero).reports ++
      (w.readValueD "pose" (Pose.identity : Pose Float)).reports := by
  simp only [readWaypoint, reports_bind, reports_pure, List.append_nil]

/-- A trajectory reports what its waypoints do, whatever its number is. -/
theorem reports_ofElement (e : Element) (id : UInt64) :
    (ofElement e id).reports = waypointReports e := by
  simp only [ofElement, readWaypoints, reports_bind, reports_pure, reports_mapM,
    reports_readWaypoint, List.append_nil]
  rfl

/-- Waypoints are sorted by their times after all of them were read. -/
theorem waypoints_ofElement (e : Element) (id : UInt64) :
    (ofElement e id).value.waypoints = ((found e).mergeSort inOrder).map waypointOf := by
  simp only [ofElement, readWaypoints, value_bind, value_pure, value_mapM, value_readWaypoint]
  rfl

/-! ### The order of waypoints -/

/-- A row is what another one becomes when it is put in the order of the times:
the same waypoints, in order, and those of one time as they stood. -/
structure Sorts (found sorted : List (Number.Numeral × Pose Float)) : Prop where
  perm : sorted.Perm found
  inOrder : sorted.Pairwise fun p q => p.1.rank .double ≤ q.1.rank .double
  stable : ∀ r, (sorted.filter fun p => p.1.rank .double = r) =
    found.filter fun p => p.1.rank .double = r

/-- Times are in order if their values are, however they are spelled. -/
theorem inOrder_iff {p q : Number.Numeral × Pose Float} :
    inOrder p q = true ↔ p.1.rank .double ≤ q.1.rank .double := decide_eq_true_iff

/-- The sort is by time, and stable. -/
theorem sorts_mergeSort (found : List (Number.Numeral × Pose Float)) :
    Sorts found (found.mergeSort inOrder) := by
  have htrans (p q r : Number.Numeral × Pose Float) :
      inOrder p q = true → inOrder q r = true → inOrder p r = true := by
    simp only [inOrder_iff]
    omega
  have htotal (p q : Number.Numeral × Pose Float) : (inOrder p q || inOrder q p) = true := by
    simp only [Bool.or_eq_true, inOrder_iff]
    omega
  have hperm := List.mergeSort_perm found inOrder
  refine ⟨hperm, ?_, ?_⟩
  · exact (List.pairwise_mergeSort htrans htotal found).imp inOrder_iff.mp
  · intro r
    -- those of one time are in order before, so they are still there in that order
    have hequal : (found.filter fun p => p.1.rank .double = r).Pairwise
        fun p q => inOrder p q = true := by
      refine List.pairwise_iff_forall_sublist.mpr fun {p q} hpq => inOrder_iff.mpr ?_
      have hp := List.of_mem_filter (hpq.subset (List.mem_cons_self))
      have hq := List.of_mem_filter (hpq.subset (List.mem_cons_of_mem _ List.mem_cons_self))
      rw [of_decide_eq_true hp, of_decide_eq_true hq]
    have hsub := (List.sublist_mergeSort htrans htotal hequal List.filter_sublist).filter
      fun p => p.1.rank .double = r
    rw [List.filter_filter] at hsub
    simp only [Bool.and_self] at hsub
    exact (hsub.eq_of_length (hperm.filter _).length_eq.symm).symm

end Trajectory

/-! ### Trajectories -/

namespace Script

/-- The number of a trajectory, if it has one that can be read. -/
def number? (e : Element) : Option UInt64 :=
  (e.attribute? "id").bind fun text => (Readable.read text : Except String UInt64).toOption

/-- The trajectories that are kept: of those with a number, the first of each. -/
def accepted (es : List Element) : List (Element × UInt64) :=
  firsts Prod.snd (es.filterMap fun e => (number? e).map (e, ·))

/-- The numbers of the trajectories that are kept. -/
def taken (es : List Element) : List UInt64 := (accepted es).map Prod.snd

/-- The trajectories that are kept, as they are read. -/
def loaded (es : List Element) : List Trajectory :=
  (accepted es).map fun p => (Trajectory.ofElement p.1 p.2).value

/-- Why a trajectory is dropped that stands behind others, if it is. -/
def dropError? (before : List Element) (e : Element) : Option Error :=
  match e.attribute? "id" with
  | none => some (.missingAttribute "id" "trajectory")
  | some text =>
    match (Readable.read text : Except String UInt64) with
    | .error message => some (.invalidAttribute "id" e.describe message)
    | .ok id =>
      if id ∈ taken before then some (.duplicateName "trajectory" (Writable.write id)) else none

/-- What is reported of a trajectory that stands behind others: one error if it is
dropped, or else what is reported of its waypoints. -/
def account (before : List Element) (e : Element) : List Report :=
  match dropError? before e with
  | some error => [.error error]
  | none => Trajectory.waypointReports e

/-- What is reported of trajectories that stand behind others. -/
def accounts (before : List Element) : List Element → List Report
  | [] => []
  | e :: es => account before e ++ accounts (before ++ [e]) es

/-- A trajectory is dropped for want of a number, or it has one; then it is dropped
exactly if that is taken. -/
theorem readId_cases (before : List Element) (e : Element) :
    (∃ error, number? e = none ∧ dropError? before e = some error ∧
      Trajectory.readId e = ⟨none, [.error error]⟩) ∨
    ∃ id, number? e = some id ∧ Trajectory.readId e = ⟨some id, []⟩ ∧
      dropError? before e =
        if id ∈ taken before then some (.duplicateName "trajectory" (Writable.write id))
        else none := by
  unfold number? dropError? Trajectory.readId
  cases e.attribute? "id" with
  | none => exact .inl ⟨_, rfl, rfl, rfl⟩
  | some text =>
    dsimp only [Option.bind_some]
    cases (Readable.read text : Except String UInt64) with
    | error message => exact .inl ⟨_, rfl, rfl, rfl⟩
    | ok id => exact .inr ⟨id, rfl, rfl, rfl⟩

/-- One more trajectory is kept if it has a number that is not taken. -/
theorem accepted_concat (before : List Element) (e : Element) :
    accepted (before ++ [e]) = match number? e with
      | none => accepted before
      | some id => if id ∈ taken before then accepted before else accepted before ++ [(e, id)] := by
  unfold taken accepted
  rw [List.filterMap_append]
  cases h : number? e with
  | none => simp [h]
  | some id =>
    have hlast : [e].filterMap (fun e => (number? e).map (e, ·)) = [(e, id)] := by simp [h]
    rw [hlast, firsts_concat]
    simp only [mem_map_firsts]

/-- One trajectory more is kept if it has a number that is not taken. -/
theorem loaded_concat (before : List Element) (e : Element) :
    loaded (before ++ [e]) = match number? e with
      | none => loaded before
      | some id =>
        if id ∈ taken before then loaded before
        else loaded before ++ [(Trajectory.ofElement e id).value] := by
  rw [loaded, accepted_concat]
  cases number? e with
  | none => rfl
  | some id =>
    dsimp only
    split
    · rfl
    · rw [List.map_append, List.map_singleton, loaded]

/-- A trajectory is kept exactly if it is not dropped with an error. -/
theorem accepted_concat_eq_iff (before : List Element) (e : Element) :
    accepted (before ++ [e]) = accepted before ↔ dropError? before e ≠ none := by
  rw [accepted_concat]
  obtain ⟨error, hnone, hdrop, -⟩ | ⟨id, hsome, -, hdrop⟩ := readId_cases before e
  · simp [hnone, hdrop]
  · by_cases h : id ∈ taken before
    · simp [hsome, hdrop, h]
    · simp [hsome, hdrop, h]

/-- The numbers of the trajectories that are kept are those that are taken. -/
theorem map_id_loaded (es : List Element) : (loaded es).map Trajectory.id = taken es := by
  rw [loaded, taken, List.map_map]
  rfl

/-- What is kept of trajectories that stand behind others, and what is reported. -/
theorem readTrajectories_eq (before es : List Element) :
    readTrajectories (loaded before) es = ⟨loaded (before ++ es), accounts before es⟩ := by
  induction es generalizing before with
  | nil => rw [List.append_nil]; rfl
  | cons e es ih =>
    -- the rest is read behind what is kept with `e` as well
    have hrest := ih (before ++ [e])
    rw [loaded_concat] at hrest
    rw [readTrajectories, List.append_cons, accounts, account]
    obtain ⟨error, hnone, hdrop, hread⟩ | ⟨id, hsome, hread, hdrop⟩ := readId_cases before e
    · rw [hnone] at hrest
      rw [hread, hdrop]
      exact bind_eq hrest
    · have htaken : ((loaded before).any fun t => t.id == id) = true ↔ id ∈ taken before := by
        simp [← map_id_loaded]
      rw [hsome] at hrest
      rw [hread, hdrop]
      refine bind_eq ?_
      dsimp only at hrest ⊢
      -- a number that is taken is the error, and the waypoints are not looked at
      by_cases h : id ∈ taken before
      · rw [if_pos h] at hrest
        rw [if_pos (htaken.mpr h), if_pos h]
        exact bind_eq hrest
      · rw [if_neg h] at hrest
        rw [if_neg (mt htaken.mp h), if_neg h, ← Trajectory.reports_ofElement e id]
        exact bind_eq hrest

/-- What is reported of the fields of a script, its trajectories apart. -/
def fieldReports (e : Element) : List Report :=
  (e.readFlagD "loop" true).reports ++ (e.readValueD "delay_start" (0 : Float)).reports ++
    (e.readFlagD "auto_start" true).reports

theorem readTrajectories_nil_eq (es : List Element) :
    readTrajectories [] es = ⟨loaded es, accounts [] es⟩ := readTrajectories_eq [] es

/-- A script has the trajectories that are kept of its element. -/
theorem trajectories_ofElement (e : Element) :
    (ofElement e).value.trajectories = loaded (e.childrenNamed "trajectory") := by
  simp only [ofElement, value_bind, value_pure, readTrajectories_nil_eq]

/-- What a script reports of its fields comes before its trajectories. -/
theorem reports_ofElement (e : Element) :
    (ofElement e).reports = fieldReports e ++ accounts [] (e.childrenNamed "trajectory") := by
  simp only [ofElement, reports_bind, reports_pure, readTrajectories_nil_eq, fieldReports,
    List.append_nil, List.append_assoc]

/-- The error of a trajectory that is dropped has its code by the cause. -/
theorem code_dropError? (before : List Element) (e : Element) :
    (dropError? before e).map Error.code =
      match e.attribute? "id", number? e with
      | none, _ => some .attributeMissing
      | some _, none => some .attributeInvalid
      | some _, some id => if id ∈ taken before then some .duplicateName else none := by
  unfold number? dropError?
  cases e.attribute? "id" with
  | none => rfl
  | some text =>
    dsimp only [Option.bind_some]
    cases (Readable.read text : Except String UInt64) with
    | error message => rfl
    | ok id =>
      dsimp only [Except.toOption]
      split
      · rfl
      · rfl

end Script

end Scene
