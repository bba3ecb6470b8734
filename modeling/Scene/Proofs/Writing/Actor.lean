/-
Actors that are written and read back.

The waypoints of a trajectory are put in order when they are read.  Those of a
trajectory that was read are in order already, and what is written of a time is
read as a numeral of the same place in the order; so they stay where they are.
-/
import Scene.Proofs.Reading.Actor
import Scene.Proofs.Writing.Joint
import Scene.Writing.Document

namespace Scene

open Reported Element

variable {policy : Policy}

/-! ### Skins and animations -/

namespace Skin

/-- The scale of a skin reads back. -/
def ReadsBack (s : Skin) : Prop := Number.ReadsBack s.scale

/-- The children of a skin, in the order in which they are written. -/
def layout (s : Skin) : List (String × List Element) :=
  [("filename", [field "filename" s.filename]), ("scale", [field "scale" s.scale])]

theorem grouped (s : Skin) : s.toElement.Grouped ["filename", "scale"] s.layout [] where
  children := by simp [toElement, layout, pushValue_eq]
  tags := by simp [layout]
  nodup := by simp [layout]
  unknown := by simp

theorem headed (s : Skin) : s.toElement.Headed "skin" [] := ⟨rfl, rfl, rfl⟩

/-- A skin can be written, if its file name is tidy. -/
theorem proper {s : Skin} (hfilename : Text.IsTidy s.filename) (hback : s.ReadsBack) :
    s.toElement.Proper := by
  refine s.grouped.proper s.headed [] (.refl _) (by decide +kernel) ?_ (by simp)
  simp only [layout, List.forall_mem_cons, List.not_mem_nil, false_implies, implies_true, and_true]
  exact ⟨fun htag => proper_field htag hfilename,
    proper_faithful (Number.ReadsBack.faithful hback)⟩

/-- A skin is read back as an equal one. -/
theorem exists_ofElement {s : Skin} (hback : s.ReadsBack) :
    ∃ t, (ofElement s.toElement).Gives policy (some t) ∧ (s == t) = true := by
  have hfilename : s.toElement.childText? "filename" = some s.filename :=
    s.grouped.childText? (by simp [layout])
  refine ⟨s, ?_, ?_⟩
  · simp only [ofElement, hfilename, gives_bind, gives_pure]
    exact ⟨s.scale, s.grouped.gives_readValueD (by simp [layout]) (Number.ReadsBack.faithful hback),
      rfl⟩
  · show (s.filename == s.filename && s.scale == s.scale) = true
    rw [hback.2, beq_self_eq_true]
    rfl

end Skin

namespace Animation

/-- The scale of an animation reads back. -/
def ReadsBack (a : Animation) : Prop := Number.ReadsBack a.scale

/-- The children of an animation, in the order in which they are written. -/
def layout (a : Animation) : List (String × List Element) :=
  [("filename", [field "filename" a.filename]), ("scale", [field "scale" a.scale]),
    ("interpolate_x", [field "interpolate_x" a.interpolateX])]

/-- The children of an animation are its fields, of known tags only. -/
theorem grouped (a : Animation) : a.toElement.Grouped knownTags a.layout [] where
  children := by simp [toElement, layout, pushValue_eq]
  tags := by simp [layout, knownTags]
  nodup := by simp [layout]
  unknown := by simp

theorem headed (a : Animation) : a.toElement.Headed "animation" [("name", a.name)] :=
  ⟨rfl, rfl, rfl⟩

/-- A valid animation can be written. -/
theorem proper {a : Animation} (hvalid : a.Valid) (hback : a.ReadsBack) : a.toElement.Proper := by
  refine a.grouped.proper a.headed ["name"] (.refl _) (by decide +kernel) ?_ (by simp)
  simp only [layout, List.forall_mem_cons, List.not_mem_nil, false_implies, implies_true, and_true]
  exact ⟨fun htag => proper_field htag hvalid.filename,
    proper_faithful (Number.ReadsBack.faithful hback),
    fun htag => proper_field htag (isTidy_write_bool _)⟩

/-- Equal animations have one name. -/
theorem name_eq_of_beq {a b : Animation} (h : (a == b) = true) : a.name = b.name := by
  obtain ⟨⟩ := a
  obtain ⟨⟩ := b
  change instBEqAnimation.beq _ _ = true at h
  simp only [instBEqAnimation.beq, Bool.and_eq_true, beq_iff_eq] at h
  exact h.1

/-- A valid animation is read back as an equal one. -/
theorem exists_ofElement {a : Animation} (hvalid : a.Valid) (hback : a.ReadsBack) :
    ∃ b, (ofElement a.toElement).Gives policy (some b) ∧ (a == b) = true := by
  have hfilename : a.toElement.childText? "filename" = some a.filename :=
    a.grouped.childText? (by simp [layout])
  refine ⟨a, ?_, ?_⟩
  · simp only [ofElement, gives_bind]
    refine ⟨_, a.headed.gives_readName hvalid.name, ?_⟩
    simp only [hfilename, gives_bind, gives_pure]
    exact ⟨(), a.grouped.gives_checkChildren,
      a.scale, a.grouped.gives_readValueD (by simp [layout]) (Number.ReadsBack.faithful hback),
      a.interpolateX, a.grouped.gives_readFlagD (by simp [layout]), rfl⟩
  · show (a.name == a.name && (a.filename == a.filename && (a.scale == a.scale
      && a.interpolateX == a.interpolateX))) = true
    rw [hback.2]
    simp

end Animation

/-! ### Trajectories -/

namespace Waypoint

/-- The numbers of a waypoint read back. -/
structure ReadsBack (w : Waypoint) : Prop where
  time : Number.ReadsBack w.time
  pose : w.pose.ReadsBack

/-- The children of a waypoint: when it is passed, and where. -/
def layout (w : Waypoint) : List (String × List Element) :=
  [("time", [field "time" w.time]), ("pose", [field "pose" w.pose])]

theorem grouped (w : Waypoint) : w.toElement.Grouped ["time", "pose"] w.layout [] where
  children := by simp [toElement, layout, pushValue_eq]
  tags := by simp [layout]
  nodup := by simp [layout]
  unknown := by simp

theorem headed (w : Waypoint) : w.toElement.Headed "waypoint" [] := ⟨rfl, rfl, rfl⟩

/-- A waypoint can be written. -/
theorem proper {w : Waypoint} (hback : w.ReadsBack) : w.toElement.Proper := by
  refine w.grouped.proper w.headed [] (.refl _) (by decide +kernel) ?_ (by simp)
  simp only [layout, List.forall_mem_cons, List.not_mem_nil, false_implies, implies_true, and_true]
  exact ⟨proper_faithful hback.time.faithful, fun htag => proper_field htag w.pose.isTidy_text⟩

/-- A waypoint is read with a numeral of its time. -/
theorem exists_readWaypoint {w : Waypoint} (hback : w.ReadsBack) :
    ∃ found, (Trajectory.readWaypoint w.toElement).Gives policy found ∧
      w.time = found.1.toFloat ∧ (w.pose == found.2) = true := by
  obtain ⟨n, hn, htime⟩ := hback.time.exists_numeral
  obtain ⟨q, hq, heq⟩ := hback.pose
  have htimes : ("time", [field "time" w.time]) ∈ w.layout := by simp [layout]
  have hposes : ("pose", [field "pose" w.pose]) ∈ w.layout := by simp [layout]
  have hread : Readable.read w.pose.text = .ok q := by
    show (Pose.ofString w.pose.text).mapError ValueError.message = .ok q
    rw [hq]
    rfl
  refine ⟨(n, q), ?_, htime.symm, heq⟩
  simp only [Trajectory.readWaypoint, gives_bind, gives_pure]
  exact ⟨n, gives_readValueD.mpr (.inr ⟨_, w.grouped.child? htimes, hn⟩),
    q, gives_readValueD.mpr (.inr ⟨_, w.grouped.child? hposes, hread⟩), rfl⟩

end Waypoint

namespace Trajectory

/-- The numbers of a trajectory and of its waypoints read back. -/
structure ReadsBack (t : Trajectory) : Prop where
  tension : Number.ReadsBack t.tension
  waypoints : ∀ w ∈ t.waypoints, w.ReadsBack

/-- The children of a trajectory are its waypoints. -/
def layout (t : Trajectory) : List (String × List Element) :=
  [("waypoint", t.waypoints.map Waypoint.toElement)]

theorem grouped (t : Trajectory) : t.toElement.Grouped ["waypoint"] t.layout [] where
  children := by simp [toElement, layout]
  tags := by
    have hw (w : Waypoint) : w.toElement.tag = "waypoint" := rfl
    simp [layout, hw]
  nodup := by simp [layout]
  unknown := by simp

theorem headed (t : Trajectory) : t.toElement.Headed "trajectory"
    [("id", Writable.write t.id), ("type", t.animation),
      ("tension", Writable.write t.tension)] where
  tag := by simp [toElement]
  attributes := by simp [toElement, putAttribute]
  text := by simp [toElement]

/-- A trajectory can be written, whatever the name of its animation. -/
theorem proper {t : Trajectory} (hback : t.ReadsBack) : t.toElement.Proper := by
  refine t.grouped.proper t.headed ["id", "type", "tension"] (.refl _) (by decide +kernel) ?_
    (by simp)
  simpa [layout] using fun _ w hw => Waypoint.proper (hback.waypoints w hw)

/-- Numerals of the same numbers are in the same order. -/
theorem pairwise_of_map_toFloat_eq {as bs : List Number.Numeral}
    (h : as.map Number.Numeral.toFloat = bs.map Number.Numeral.toFloat)
    (hself : ∀ a ∈ as, (a.toFloat == a.toFloat) = true)
    (hbs : bs.Pairwise fun a b => a.rank .double ≤ b.rank .double) :
    as.Pairwise fun a b => a.rank .double ≤ b.rank .double := by
  rw [← List.forall₂_eq_eq_eq, List.forall₂_map_left_iff, List.forall₂_map_right_iff] at h
  -- numerals of one number have one rank, if that is no NaN
  have hranks : as.map (Number.Numeral.rank .double) = bs.map (Number.Numeral.rank .double) :=
    map_eq_of_forall₂ (fun a b hab => Number.Numeral.rank_eq_of_toFloat_eq hab.2 hab.1)
      ((List.forall₂_and_left as bs).mpr ⟨hself, h⟩)
  have hpairs : (bs.map (Number.Numeral.rank .double)).Pairwise (· ≤ ·) := List.pairwise_map.mpr hbs
  rw [← hranks] at hpairs
  exact List.pairwise_map.mp hpairs

/-- **The waypoints of a trajectory stay in order.** -/
theorem exists_readWaypoints {t : Trajectory} (hin : t.InOrder) (hback : t.ReadsBack) :
    ∃ ws, (readWaypoints t.toElement).Gives policy ws ∧ (t.waypoints == ws) = true := by
  obtain ⟨found, hfound⟩ := exists_forall₂ fun w hw =>
    Waypoint.exists_readWaypoint (hback.waypoints w hw)
  have hreads : List.Forall₂ (fun e n => (readWaypoint e).Gives policy n)
      (t.toElement.childrenNamed "waypoint") found := by
    rw [t.grouped.childrenNamed (List.mem_singleton_self _), List.forall₂_map_left_iff]
    exact hfound.imp fun w n hwn => hwn.1
  have htimes : t.waypoints.map Waypoint.time =
      (found.map Prod.fst).map Number.Numeral.toFloat := by
    rw [List.map_map]
    exact map_eq_of_forall₂ (fun w n hwn => hwn.2.1) hfound
  obtain ⟨times, hsame, hpairs⟩ := hin
  -- no time is a NaN, for every time reads back
  have hself : ∀ n ∈ found.map Prod.fst, (n.toFloat == n.toFloat) = true := by
    intro n hn
    have hmem := List.mem_map_of_mem (f := Number.Numeral.toFloat) hn
    rw [← htimes] at hmem
    obtain ⟨w, hw, htime⟩ := List.mem_map.mp hmem
    rw [← htime]
    exact (hback.waypoints w hw).time.2
  -- so sorting once more changes nothing
  have hsorted : found.mergeSort inOrder = found := by
    have hfirst := pairwise_of_map_toFloat_eq (htimes.symm.trans hsame) hself hpairs
    refine List.mergeSort_of_pairwise ((List.pairwise_map.mp hfirst).imp fun hab => ?_)
    simpa [inOrder] using hab
  refine ⟨found.map fun n => ⟨n.1.toFloat, n.2⟩, ?_, ?_⟩
  · simp only [readWaypoints, gives_bind, gives_pure]
    exact ⟨found, gives_mapM.mpr hreads, by rw [hsorted]⟩
  · rw [beq_list_iff, List.forall₂_map_right_iff]
    have hboth := (List.forall₂_and_left t.waypoints found).mpr ⟨hback.waypoints, hfound⟩
    apply hboth.imp
    intro w n hwn
    obtain ⟨hw, -, htime, hpose⟩ := hwn
    show (w.time == n.1.toFloat && w.pose == n.2) = true
    rw [← htime, hw.time.2, hpose]
    rfl

/-- The number of a trajectory is read back. -/
theorem gives_readId (t : Trajectory) : (readId t.toElement).Gives policy (some t.id) := by
  have hid : t.toElement.attribute? "id" = some (Writable.write t.id) := t.headed.attribute?
  have hread : Readable.read (Writable.write t.id) = .ok t.id := (faithful_uint64 t.id).read
  simp only [readId, hid, hread, gives_pure]

/-- A trajectory in order is read back as an equal one: sorting its waypoints
leaves them. -/
theorem exists_ofElement {t : Trajectory} (hin : t.InOrder) (hback : t.ReadsBack) :
    ∃ u, (ofElement t.toElement t.id).Gives policy u ∧ (t == u) = true := by
  obtain ⟨waypoints, hwaypoints, hweq⟩ := exists_readWaypoints hin hback
  have htype : t.toElement.attribute? "type" = some t.animation := t.headed.attribute?
  have htension : t.toElement.attribute? "tension" = some (Number.textOfFloat t.tension) :=
    t.headed.attribute?
  refine ⟨{ t with waypoints }, ?_, ?_⟩
  · simp only [ofElement, gives_bind, gives_pure, htype, htension, Option.bind_some,
      hback.tension.1, Option.getD_some]
    exact ⟨waypoints, hwaypoints, rfl⟩
  · show (t.id == t.id && (t.animation == t.animation && (t.tension == t.tension
      && t.waypoints == waypoints))) = true
    rw [hback.tension.2, hweq]
    simp

end Trajectory

/-! ### Scripts -/

namespace Script

/-- The numbers of a script and of its trajectories read back. -/
structure ReadsBack (s : Script) : Prop where
  delayStart : Number.ReadsBack s.delayStart
  trajectories : ∀ t ∈ s.trajectories, t.ReadsBack

/-- The children of a script, with the trajectories at the end. -/
def layout (s : Script) : List (String × List Element) :=
  [("loop", [field "loop" s.loops]), ("delay_start", [field "delay_start" s.delayStart]),
    ("auto_start", [field "auto_start" s.autoStart]),
    ("trajectory", s.trajectories.map Trajectory.toElement)]

theorem grouped (s : Script) :
    s.toElement.Grouped ["loop", "delay_start", "auto_start", "trajectory"] s.layout [] where
  children := by simp [toElement, layout, pushValue_eq]
  tags := by
    have ht (t : Trajectory) : t.toElement.tag = "trajectory" := t.headed.tag
    simp [layout, ht]
  nodup := by simp [layout]
  unknown := by simp

theorem headed (s : Script) : s.toElement.Headed "script" [] where
  tag := by simp [toElement, pushValue_eq]
  attributes := by simp [toElement, pushValue_eq]
  text := by simp [toElement, pushValue_eq]

/-- A script can be written. -/
theorem proper {s : Script} (hback : s.ReadsBack) : s.toElement.Proper := by
  refine s.grouped.proper s.headed [] (.refl _) (by decide +kernel) ?_ (by simp)
  simp only [layout, List.forall_mem_cons, List.not_mem_nil, false_implies, implies_true, and_true,
    List.forall_mem_map]
  exact ⟨fun htag => proper_field htag (isTidy_write_bool _),
    proper_faithful hback.delayStart.faithful,
    fun htag => proper_field htag (isTidy_write_bool _),
    fun _ t ht => Trajectory.proper (hback.trajectories t ht)⟩

/-- Trajectories of different numbers are all kept. -/
theorem gives_readTrajectories {kept ts : List Trajectory} {es : List Element}
    (h : List.Forall₂ (fun e t => (Trajectory.readId e).Gives policy (some t.id) ∧
      (Trajectory.ofElement e t.id).Gives policy t) es ts)
    (hnodup : ((kept ++ ts).map Trajectory.id).Nodup) :
    (readTrajectories kept es).Gives policy (kept ++ ts) := by
  induction h generalizing kept with
  | nil =>
    rw [readTrajectories, List.append_nil]
    exact gives_pure.mpr rfl
  | @cons e t es ts het _ ih =>
    rw [readTrajectories, gives_bind]
    refine ⟨some t.id, het.1, ?_⟩
    -- the number is not taken yet
    have hfree : (kept.any fun u => u.id == t.id) = false := by
      rw [List.map_append, List.nodup_append] at hnodup
      simpa using fun u hu => hnodup.2.2 _ (List.mem_map_of_mem hu) _
        (List.mem_map_of_mem List.mem_cons_self)
    simp only [hfree, Bool.false_eq_true, if_false, gives_bind]
    refine ⟨t, het.2, ?_⟩
    -- the induction goes on with one more trajectory that is kept
    have happend : kept ++ t :: ts = (kept ++ [t]) ++ ts := by simp
    rw [happend] at hnodup ⊢
    exact ih hnodup

/-- A valid script is read back as an equal one. -/
theorem exists_ofElement {s : Script} (hvalid : s.Valid) (hback : s.ReadsBack) :
    ∃ r, (ofElement s.toElement).Gives policy r ∧ (s == r) = true := by
  have htrajectory : ∀ t ∈ s.trajectories, ∃ u, ((Trajectory.readId t.toElement).Gives policy
      (some u.id) ∧ (Trajectory.ofElement t.toElement u.id).Gives policy u) ∧ (t == u) = true := by
    intro t ht
    obtain ⟨u, hu, heq⟩ :=
      Trajectory.exists_ofElement (hvalid.inOrder t ht) (hback.trajectories t ht)
    have hid : u.id = t.id := by
      rw [← hu.2]
      rfl
    exact ⟨u, ⟨hid.symm ▸ t.gives_readId, hid.symm ▸ hu⟩, heq⟩
  obtain ⟨ts, hts⟩ := exists_forall₂ htrajectory
  -- trajectories read back have their numbers still, so all are kept
  have hids : s.trajectories.map Trajectory.id = ts.map Trajectory.id := by
    refine map_eq_of_forall₂ (fun t u htu => ?_) hts
    have heq := htu.2
    obtain ⟨⟩ := t
    obtain ⟨⟩ := u
    change instBEqTrajectory.beq _ _ = true at heq
    simp only [instBEqTrajectory.beq, Bool.and_eq_true, beq_iff_eq] at heq
    exact heq.1
  have hparts : ("trajectory", s.trajectories.map Trajectory.toElement) ∈ s.layout := by
    simp [layout]
  have hread : (readTrajectories [] (s.toElement.childrenNamed "trajectory")).Gives policy
      ([] ++ ts) := by
    refine gives_readTrajectories ?_ (hids ▸ hvalid.distinct)
    rw [s.grouped.childrenNamed hparts, List.forall₂_map_left_iff]
    exact hts.imp fun t u htu => htu.1
  refine ⟨{ s with trajectories := ts }, ?_, ?_⟩
  · simp only [ofElement, gives_bind, gives_pure]
    exact ⟨_, s.grouped.gives_readFlagD (by simp [layout]),
      _, s.grouped.gives_readValueD (by simp [layout]) hback.delayStart.faithful,
      _, s.grouped.gives_readFlagD (by simp [layout]), ts, hread, rfl⟩
  · have hteq : (s.trajectories == ts) = true := beq_list_iff.mpr (hts.imp fun t u htu => htu.2)
    show (s.loops == s.loops && (s.delayStart == s.delayStart && (s.autoStart == s.autoStart
      && s.trajectories == ts))) = true
    rw [hback.delayStart.2, hteq]
    simp

end Script

/-! ### Actors -/

namespace Actor

/-- Actors are compared field by field. -/
theorem beq_iff {a b : Actor} : (a == b) = true ↔
    a.name = b.name ∧ (a.placement == b.placement) = true ∧ (a.skin == b.skin) = true ∧
      (a.animations == b.animations) = true ∧ (a.script == b.script) = true ∧
      (a.links == b.links) = true ∧ (a.joints == b.joints) = true := by
  obtain ⟨⟩ := a
  obtain ⟨⟩ := b
  show instBEqActor.beq _ _ = true ↔ _
  simp [instBEqActor.beq]

/-- The numbers of an actor and of all its parts read back. -/
structure ReadsBack (a : Actor) : Prop where
  placement : a.placement.ReadsBack
  skin : ∀ s, a.skin = some s → s.ReadsBack
  animations : ∀ x ∈ a.animations, x.ReadsBack
  script : a.script.ReadsBack
  links : ∀ l ∈ a.links, l.ReadsBack
  joints : ∀ j ∈ a.joints, j.ReadsBack

/-- The children of an actor, in the order in which they are written. -/
def layout (a : Actor) : List (String × List Element) :=
  [("pose", a.placement.elements), ("skin", a.skin.toList.map Skin.toElement),
    ("animation", a.animations.map Animation.toElement), ("script", [a.script.toElement]),
    ("link", a.links.map Link.toElement), ("joint", a.joints.map Joint.toElement)]

/-- The children of an actor are those of its layout, of known tags only. -/
theorem grouped (a : Actor) : a.toElement.Grouped knownTags a.layout [] where
  children := by simp [toElement, layout, pushPlacement_eq]
  tags := by
    have hs (s : Skin) : s.toElement.tag = "skin" := s.headed.tag
    have hx (x : Animation) : x.toElement.tag = "animation" := x.headed.tag
    have hscript : a.script.toElement.tag = "script" := a.script.headed.tag
    have hl (l : Link) : l.toElement.tag = "link" := l.headed.tag
    have hj (j : Joint) : j.toElement.tag = "joint" := j.headed.tag
    simp [layout, knownTags, hs, hx, hscript, hl, hj]
  nodup := by simp [layout]
  unknown := by simp

theorem headed (a : Actor) : a.toElement.Headed "actor" [("name", a.name)] where
  tag := by simp [toElement, pushPlacement_eq]
  attributes := by simp [toElement, pushPlacement_eq, putAttribute]
  text := by simp [toElement, pushPlacement_eq]

/-- A valid actor can be written. -/
theorem proper {a : Actor} (hvalid : a.Valid policy) (hback : a.ReadsBack) :
    a.toElement.Proper := by
  refine a.grouped.proper a.headed ["name"] (.refl _) (by decide +kernel) ?_ (by simp)
  simp only [layout, List.forall_mem_cons, List.not_mem_nil, false_implies, implies_true, and_true,
    List.forall_mem_map, Option.mem_toList]
  exact ⟨by simp, fun _ s hs => Skin.proper (hvalid.skin s hs) (hback.skin s hs),
    fun _ x hx => Animation.proper (hvalid.animations x hx) (hback.animations x hx),
    fun _ => Script.proper hback.script,
    fun _ l hl => Link.proper (hvalid.links l hl) (hback.links l hl),
    fun _ j hj => Joint.proper (hvalid.joints j hj) (hback.joints j hj)⟩

/-- **An actor is read back as an equal one.** -/
theorem exists_ofElement {a : Actor} (hvalid : a.Valid policy) (hback : a.ReadsBack) :
    ∃ b, (ofElement a.toElement).Gives policy (some b) ∧ (a == b) = true := by
  have hgrouped := a.grouped
  obtain ⟨hxdistinct, hldistinct, hjdistinct⟩ := hvalid.distinct
  obtain ⟨placement, hplacement, hpeq⟩ :=
    hgrouped.exists_readPlacement policy (by simp [layout]) hback.placement
  have hskins : ("skin", a.skin.toList.map Skin.toElement) ∈ a.layout := by simp [layout]
  obtain ⟨skin, hskin, hseq⟩ : ∃ o, (a.toElement.readChildD "skin" none Skin.ofElement).Gives
      policy o ∧ (a.skin == o) = true :=
    hgrouped.exists_readChildD hskins fun s hs => Skin.exists_ofElement (hback.skin s hs)
  obtain ⟨animations, hanimations, hxeq⟩ : ∃ xs, (a.toElement.readAll Animation.ofElement).Gives
      policy xs ∧ List.Forall₂ (fun x y => (x == y) = true) a.animations xs :=
    hgrouped.exists_readAll (by simp [layout, Named.kind]) (fun x y => Animation.name_eq_of_beq)
      hxdistinct fun x hx =>
        Animation.exists_ofElement (hvalid.animations x hx) (hback.animations x hx)
  obtain ⟨script, hscript, hreq⟩ : ∃ r, (Script.ofElement a.script.toElement).Gives policy r ∧
      (a.script == r) = true :=
    Script.exists_ofElement hvalid.script hback.script
  have hscripts : ("script", [a.script.toElement]) ∈ a.layout := by simp [layout]
  obtain ⟨links, hlinks, hleq⟩ : ∃ ls, (a.toElement.readAll Link.ofElement).Gives policy ls ∧
      List.Forall₂ (fun l k => (l == k) = true) a.links ls :=
    hgrouped.exists_readAll (by simp [layout, Named.kind]) (fun l k hlk => (Link.beq_iff.mp hlk).1)
      hldistinct fun l hl => Link.exists_ofElement (hvalid.links l hl) (hback.links l hl)
  obtain ⟨joints, hjoints, hjeq⟩ : ∃ js, (a.toElement.readAll Joint.ofElement).Gives policy js ∧
      List.Forall₂ (fun j k => (j == k) = true) a.joints js :=
    hgrouped.exists_readAll (by simp [layout, Named.kind]) (fun j k hjk => (Joint.beq_iff.mp hjk).1)
      hjdistinct fun j hj => Joint.exists_ofElement (hvalid.joints j hj) (hback.joints j hj)
  rw [← beq_list_iff] at hxeq hleq hjeq
  refine ⟨{ name := a.name, placement, skin, animations, script, links, joints }, ?_,
    beq_iff.mpr ⟨rfl, hpeq, hseq, hxeq, hreq, hleq, hjeq⟩⟩
  simp only [ofElement, gives_bind]
  refine ⟨_, a.headed.gives_readName hvalid.name, ?_⟩
  simp only [gives_bind, gives_pure]
  exact ⟨placement, hplacement, (), hgrouped.gives_checkChildren, skin, hskin, animations,
    hanimations, script, gives_readChildD.mpr (.inr ⟨_, hgrouped.child? hscripts, hscript⟩),
    links, hlinks, joints, hjoints, rfl⟩

end Actor

end Scene
