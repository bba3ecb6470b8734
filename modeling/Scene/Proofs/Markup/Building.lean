/-
The tree of a row of events.

A tree is built step by step on a stack of the elements that are open, while what
events stand for is said by recursion.  The two agree: where events nest, their
elements come to stand one after another in the element that is open, and their
segments in its text (`builds_of_nests`).  Where none is open there must be one
element and no other, and texts make no difference.

The stack is as high as there are open elements, so events that do not leave
nothing open come to no tree.

Main statement: `treeOfEvents_of_nesting`.
-/
import Scene.Proofs.Markup.Nesting

namespace Scene.Markup

open Event

variable {es : List Event} {cs : List Element} {ts : List String}

/-! ### Building -/

namespace Builder

/-- Events lead from one incomplete tree to another one. -/
def Builds (b : Builder) (es : List Event) (b' : Builder) : Prop :=
  ∀ es', b.run (es ++ es') = b'.run es'

theorem Builds.refl (b : Builder) : b.Builds [] b := fun _ => rfl

/-- Events that follow each other build in their order. -/
theorem Builds.trans {b b' b'' : Builder} {es fs : List Event} (h : b.Builds es b')
    (h' : b'.Builds fs b'') : b.Builds (es ++ fs) b'' := by
  intro es'
  rw [List.append_assoc, h, h']

theorem Builds.single {b b' : Builder} (event : Event) (h : b.step event = .ok b') :
    b.Builds [event] b' := by
  intro es'
  rw [List.singleton_append, run, h]

/-- The tree with one more open element. -/
def opening (b : Builder) (e : Element) : Builder := { b with stack := e :: b.stack }

/-- A text becomes a segment of the element that is open. -/
theorem appendText_opening (b : Builder) (tag : String) (attributes : List (String × String))
    (cs : List Element) (ts : List String) (content : String) :
    (b.opening (assemble tag attributes cs ts)).appendText content =
      b.opening (assemble tag attributes cs (ts ++ [content])) := by
  unfold appendText assemble
  rw [joined_concat]
  dsimp only [opening]
  by_cases h : Text.trim content = ""
  · simp [h]
  · simp only [String.isEmpty_iff, h, if_false, addText]
    cases joined ts with
    | none => simp
    | some before => rfl

/-- An event that is a text makes one more segment. -/
theorem builds_segment {event : Event} {content : String}
    (hevent : ∀ b : Builder, b.step event = .ok (b.appendText content)) (b : Builder) (tag : String)
    (attributes : List (String × String)) (cs : List Element) (ts : List String) :
    (b.opening (assemble tag attributes cs ts)).Builds [event]
      (b.opening (assemble tag attributes cs (ts ++ [content]))) := by
  apply Builds.single
  rw [hevent, appendText_opening]

/-- The content of an open element is built in it. -/
theorem builds_of_nests {es : List Event} {cs : List Element} {ts : List String}
    (h : Nests es cs ts) (b : Builder) (tag : String) (attributes : List (String × String))
    (before : List Element) (segments : List String) :
    (b.opening (assemble tag attributes before segments)).Builds es
      (b.opening (assemble tag attributes (before ++ cs) (segments ++ ts))) := by
  -- the induction is on the nesting, not on the events: what an element stands for is
  -- known at its start, and its content comes to be segments and children before its end
  induction h generalizing b tag attributes before segments with
  | nil =>
    rw [List.append_nil, List.append_nil]
    exact .refl _
  | skipped _ ih => exact (Builds.single .skipped rfl).trans (ih b tag attributes before segments)
  | text content _ ih =>
    have hrest := ih b tag attributes before (segments ++ [content])
    rw [List.append_assoc] at hrest
    exact (builds_segment (fun _ => rfl) b tag attributes before segments).trans hrest
  | literal content _ ih =>
    have hrest := ih b tag attributes before (segments ++ [content])
    rw [List.append_assoc] at hrest
    exact (builds_segment (fun _ => rfl) b tag attributes before segments).trans hrest
  | empty tag' attributes' _ ih =>
    have hrest := ih b tag attributes (before ++ [assemble tag' attributes' [] []]) segments
    rw [List.append_assoc] at hrest
    exact (Builds.single (.empty tag' attributes') rfl).trans hrest
  | @element inner es children cs inside ts tag' attributes' closing _ _ ihinner ih =>
    have hrest := ih b tag attributes (before ++ [assemble tag' attributes' children inside])
      segments
    rw [List.append_assoc] at hrest
    -- the element is open while its content is built
    let outer := b.opening (assemble tag attributes before segments)
    have hstart : outer.Builds [.start tag' attributes']
        (outer.opening (assemble tag' attributes' [] [])) := Builds.single _ rfl
    have hinner := ihinner outer tag' attributes' [] []
    -- the end takes the complete element from the stack into the one around it
    have hend : (outer.opening (assemble tag' attributes' children inside)).Builds
        [.finish closing] (b.opening (assemble tag attributes
          (before ++ [assemble tag' attributes' children inside]) segments)) := Builds.single _ rfl
    exact hstart.trans (hinner.trans (hend.trans hrest))

/-! ### Results -/

/-- What comes of events behind those that an incomplete tree was built of. -/
def outcome (b : Builder) (es : List Event) : Except MarkupError Element :=
  match b.run es with
  | (_, some e) => .error e
  | (b', none) => b'.result

variable {b b' : Builder} {es fs : List Event}

/-- The first event is met, and then the others. -/
theorem outcome_cons (b : Builder) (e : Event) (es : List Event) :
    b.outcome (e :: es) = b.step e >>= fun b' => b'.outcome es := by
  rw [outcome, run]
  cases b.step e <;> rfl

/-- What was built counts, and not how it was. -/
theorem Builds.outcome_append (h : b.Builds es b') (fs : List Event) :
    b.outcome (es ++ fs) = b'.outcome fs := by
  rw [outcome, h fs]
  rfl

/-- Events lead to an incomplete tree or end the reading. -/
theorem builds_or_fails (b : Builder) (es : List Event) :
    (∃ b', b.run es = (b', none) ∧ b.Builds es b') ∨
      ∃ e, ∀ fs, b.outcome (es ++ fs) = .error e := by
  induction es generalizing b with
  | nil => exact .inl ⟨b, rfl, .refl b⟩
  | cons event es ih =>
    cases hstep : b.step event with
    | error e => exact .inr ⟨e, fun fs => by rw [List.cons_append, outcome_cons, hstep]; rfl⟩
    | ok c =>
      have hsingle := Builds.single event hstep
      obtain ⟨b', hrun, hbuilds⟩ | ⟨e, he⟩ := ih c
      · exact .inl ⟨b', by rw [run, hstep]; exact hrun, hsingle.trans hbuilds⟩
      · exact .inr ⟨e, fun fs => (hsingle.outcome_append (es ++ fs)).trans (he fs)⟩

/-! ### Texts outside -/

/-- A text outside all elements is only remembered. -/
theorem appendText_outside (hstack : b.stack = []) (content : String) :
    ∃ stray, b.appendText content = { b with stray } := by
  unfold appendText
  dsimp only
  split
  · exact ⟨b.stray, rfl⟩
  · rw [hstack]
    exact ⟨_, rfl⟩

/-- Texts outside the root do not change where an element goes. -/
theorem attach_stray (b : Builder) (stray : List String) (e : Element) :
    ({ b with stray } : Builder).attach e = (b.attach e).map fun b' => { b' with stray } := by
  unfold attach
  cases b.stack with
  | cons parent below => rfl
  | nil => cases b.root <;> rfl

theorem appendText_stray (b : Builder) (stray : List String) (content : String) :
    ∃ stray', ({ b with stray } : Builder).appendText content =
      { b.appendText content with stray := stray' } := by
  unfold appendText
  dsimp only
  split
  · exact ⟨stray, rfl⟩
  · cases b.stack with
    | nil => exact ⟨_, rfl⟩
    | cons top below => exact ⟨_, rfl⟩

/-- What is remembered of texts outside has no say in a step. -/
theorem step_stray (b : Builder) (stray : List String) (e : Event) :
    ∃ stray', ({ b with stray } : Builder).step e =
      (b.step e).map fun b' => { b' with stray := stray' } := by
  cases e with
  | start tag attributes => exact ⟨stray, rfl⟩
  | empty tag attributes => exact ⟨stray, attach_stray b stray _⟩
  -- the element that is closed is attached to the next one, if there is one
  | finish tag =>
    unfold step
    cases b.stack with
    | nil => exact ⟨stray, rfl⟩
    | cons e below => exact ⟨stray, attach_stray { b with stack := below } stray e⟩
  | text content =>
    obtain ⟨stray', h⟩ := appendText_stray b stray content
    exact ⟨stray', congrArg Except.ok h⟩
  | literal content =>
    obtain ⟨stray', h⟩ := appendText_stray b stray content
    exact ⟨stray', congrArg Except.ok h⟩
  | skipped => exact ⟨stray, rfl⟩

/-- Nor do they change what comes of the events. -/
theorem outcome_stray (b : Builder) (stray : List String) (es : List Event) :
    ({ b with stray } : Builder).outcome es = b.outcome es := by
  induction es generalizing b stray with
  | nil => rfl
  | cons e es ih =>
    obtain ⟨stray', h⟩ := step_stray b stray e
    rw [outcome_cons, outcome_cons, h]
    cases b.step e with
    | error e => rfl
    | ok b' => exact ih b' stray'

/-- A text outside all elements makes no difference. -/
theorem outcome_appendText (hstack : b.stack = []) (content : String) (es : List Event) :
    (b.appendText content).outcome es = b.outcome es := by
  obtain ⟨stray, h⟩ := appendText_outside hstack content
  rw [h, outcome_stray]

/-! ### Elements outside -/

/-- The tree of elements that stand outside all others: there must be one. -/
def onlyRoot : List Element → Except MarkupError Element
  | [] => .error .noRoot
  | [root] => .ok root
  | _ :: second :: _ => .error (.secondRoot second.tag)

/-- An element outside all others comes behind those that are complete. -/
theorem outcome_attach (hstack : b.stack = []) (e : Element) {cs : List Element}
    (hrest : ∀ b' : Builder, b'.stack = [] → b'.outcome es = onlyRoot (b'.root.toList ++ cs)) :
    (b.attach e >>= fun b' => b'.outcome es) = onlyRoot (b.root.toList ++ e :: cs) := by
  unfold attach
  rw [hstack]
  cases b.root with
  | none => exact hrest { b with stack := [], root := some e } rfl
  -- a second root is an error at once, whatever comes behind it
  | some root => rfl

/-- **What nests outside all elements comes to its only element.** -/
theorem outcome_of_nests {cs : List Element} {ts : List String} (h : Nests es cs ts)
    (hstack : b.stack = []) : b.outcome es = onlyRoot (b.root.toList ++ cs) := by
  induction h generalizing b with
  | nil =>
    rw [outcome, run]
    dsimp only [result]
    rw [hstack]
    cases b.root <;> rfl
  | skipped _ ih => exact ih hstack
  | text content _ ih =>
    rw [outcome_cons]
    exact (outcome_appendText hstack content _).trans (ih hstack)
  | literal content _ ih =>
    rw [outcome_cons]
    exact (outcome_appendText hstack content _).trans (ih hstack)
  | empty tag attributes _ ih =>
    rw [outcome_cons]
    exact outcome_attach hstack _ fun b' => ih
  -- the content is built in the open element; closing that one attaches it
  | @element inner es children cs inside ts tag attributes closing hinner _ _ ih =>
    have hbuilds : b.Builds (.start tag attributes :: inner)
        (b.opening (assemble tag attributes children inside)) :=
      (Builds.single (.start tag attributes) rfl).trans
        (builds_of_nests hinner b tag attributes [] [])
    rw [← List.cons_append, hbuilds.outcome_append, outcome_cons]
    exact outcome_attach hstack _ fun b' => ih

/-! ### Open elements -/

/-- Attaching an element opens and closes nothing. -/
theorem length_stack_attach {e : Element} (h : b.attach e = .ok b') :
    b'.stack.length = b.stack.length := by
  unfold attach at h
  split at h
  · next hstack =>
    cases h
    simp [hstack]
  · split at h
    · cases h
      rfl
    · cases h

/-- A text opens and closes nothing. -/
theorem length_stack_appendText (b : Builder) (content : String) :
    (b.appendText content).stack.length = b.stack.length := by
  unfold appendText
  dsimp only
  split
  · rfl
  · split
    · rfl
    · next hstack => simp [hstack]

/-- The stack is as high as there are open elements. -/
theorem depthAfter_step {event : Event} (h : b.step event = .ok b') :
    event.depthAfter b.stack.length = some b'.stack.length := by
  cases event with
  | start tag attributes =>
    cases h
    rfl
  | empty tag attributes => exact congrArg some (length_stack_attach h).symm
  | finish tag =>
    simp only [step] at h
    split at h
    · cases h
    · next hstack =>
      rw [hstack]
      exact congrArg some (length_stack_attach h).symm
  | text content =>
    have h : b.appendText content = b' := Except.ok.inj h
    exact congrArg some (h ▸ (length_stack_appendText b content).symm)
  | literal content =>
    have h : b.appendText content = b' := Except.ok.inj h
    exact congrArg some (h ▸ (length_stack_appendText b content).symm)
  | skipped =>
    cases h
    rfl

/-- The stack is as high as the events are deep. -/
theorem depth_run (h : b.run es = (b', none)) : depth b.stack.length es = some b'.stack.length := by
  induction es generalizing b with
  | nil =>
    cases h
    rfl
  | cons e es ih =>
    rw [run] at h
    split at h
    · next c hstep =>
      rw [depth, depthAfter_step hstep]
      exact ih h
    · cases h

end Builder

/-! ### Trees -/

theorem treeOfEvents_eq_outcome (es : List Event) :
    treeOfEvents es = ({} : Builder).outcome es := rfl

/-- What nests comes to its only element. -/
theorem Nests.treeOfEvents_eq (h : Nests es cs ts) : treeOfEvents es = Builder.onlyRoot cs :=
  Builder.outcome_of_nests h rfl

/-- Only events that leave nothing open come to a tree. -/
theorem depth_of_treeOfEvents {root : Element} (h : treeOfEvents es = .ok root) :
    depth 0 es = some 0 := by
  rw [treeOfEvents_eq_outcome, Builder.outcome] at h
  split at h
  · cases h
  · next b hrun =>
    -- a result needs an empty stack, and the stack is as high as the depth
    have hdepth := Builder.depth_run hrun
    unfold Builder.result at h
    split at h
    · cases h
    · next hstack =>
      rw [hstack] at hdepth
      exact hdepth

/-- There must be one root. -/
theorem onlyRoot_eq_ok_iff {root : Element} : Builder.onlyRoot cs = .ok root ↔ cs = [root] := by
  unfold Builder.onlyRoot
  split <;> simp

/-- Events have a tree exactly if they nest to one element. -/
theorem treeOfEvents_eq_ok_iff {root : Element} :
    treeOfEvents es = .ok root ↔ ∃ stray, Nests es [root] stray := by
  constructor
  · intro h
    obtain ⟨cs, ts, hnests⟩ := exists_nests (depth_of_treeOfEvents h)
    obtain rfl := onlyRoot_eq_ok_iff.mp (hnests.treeOfEvents_eq.symm.trans h)
    exact ⟨ts, hnests⟩
  · rintro ⟨stray, hnests⟩
    exact hnests.treeOfEvents_eq

/-- An event that does not change what comes of the events behind it can be left
out. -/
theorem treeOfEvents_insert {past : List Event} {e : Event}
    (h : ∀ b : Builder, ({} : Builder).run past = (b, none) →
      ∀ rest, b.outcome (e :: rest) = b.outcome rest) (rest : List Event) :
    treeOfEvents (past ++ e :: rest) = treeOfEvents (past ++ rest) := by
  simp only [treeOfEvents_eq_outcome]
  -- reading that has failed in the past never comes to the event
  obtain ⟨b, hrun, hbuilds⟩ | ⟨err, herr⟩ := Builder.builds_or_fails {} past
  · rw [hbuilds.outcome_append, hbuilds.outcome_append, h b hrun rest]
  · rw [herr, herr]

/-- An event that is skipped can be left out. -/
theorem treeOfEvents_skipped (past rest : List Event) :
    treeOfEvents (past ++ .skipped :: rest) = treeOfEvents (past ++ rest) :=
  treeOfEvents_insert (fun b _ rest => Builder.outcome_cons b .skipped rest) rest

/-- At depth zero nothing is open. -/
theorem stack_eq_nil_of_depth {past : List Event} (hdepth : depth 0 past = some 0) {b : Builder}
    (hrun : ({} : Builder).run past = (b, none)) : b.stack = [] := by
  have h := Builder.depth_run hrun
  rw [show ({} : Builder).stack.length = 0 from rfl, hdepth, Option.some.injEq] at h
  exact List.eq_nil_of_length_eq_zero h.symm

/-- So a text at depth zero can be left out, in both its kinds. -/
theorem treeOfEvents_text {past : List Event} (hdepth : depth 0 past = some 0) (content : String)
    (rest : List Event) :
    treeOfEvents (past ++ .text content :: rest) = treeOfEvents (past ++ rest) ∧
      treeOfEvents (past ++ .literal content :: rest) = treeOfEvents (past ++ rest) := by
  have hout (b : Builder) (hrun : ({} : Builder).run past = (b, none)) (rest : List Event) :
      (b.appendText content).outcome rest = b.outcome rest :=
    Builder.outcome_appendText (stack_eq_nil_of_depth hdepth hrun) content rest
  constructor
  · refine treeOfEvents_insert (fun b hrun rest => ?_) rest
    exact (Builder.outcome_cons b (.text content) rest).trans (hout b hrun rest)
  · refine treeOfEvents_insert (fun b hrun rest => ?_) rest
    exact (Builder.outcome_cons b (.literal content) rest).trans (hout b hrun rest)

/-! ### Documents -/

/-- A document is read as the tree of its events, if all of it could be made
events. -/
theorem readDocument_eq_treeOfEvents {document : String}
    (h : (Event.ofDocument document).2 = none) :
    (readDocument document).value = treeOfEvents (Event.ofDocument document).1 := by
  rw [readDocument, treeOfEvents]
  dsimp only
  rw [h, Option.or_none]
  cases ({} : Builder).run (Event.ofDocument document).1 with
  | mk b failure => cases failure <;> rfl

/-- **Events come to the tree that they nest to.**  There is a tree exactly if one
element is outermost and none is left open, which includes that no end event lacks
an element.  The tree is the one element that the events stand for by recursion:
its children are in order, and the words of its text are those of its segments.
Events that are ignored can be left out, and so can texts where no element is open.

The events of a document always have elements to close, and if there is no error in
them, the document is read as their tree. -/
theorem treeOfEvents_of_nesting (es : List Event) :
    ((∃ root, treeOfEvents es = .ok root) ↔ outermost 0 es = 1 ∧ depth 0 es = some 0) ∧
    (∀ root, treeOfEvents es = .ok root ↔ ∃ stray, Nests es [root] stray) ∧
    (∀ tag attributes children segments,
      Text.words ((assemble tag attributes children segments).text.getD "") =
        segments.flatMap Text.words) ∧
    (∀ past rest, es = past ++ rest →
      treeOfEvents (past ++ .skipped :: rest) = treeOfEvents es ∧
      (depth 0 past = some 0 → ∀ content,
        treeOfEvents (past ++ .text content :: rest) = treeOfEvents es ∧
        treeOfEvents (past ++ .literal content :: rest) = treeOfEvents es)) ∧
    ∀ document, (Event.ofDocument document).1 = es →
      depth 0 es ≠ none ∧
      ((Event.ofDocument document).2 = none → (readDocument document).value = treeOfEvents es) := by
  refine ⟨⟨?_, ?_⟩, fun root => treeOfEvents_eq_ok_iff, fun _ _ _ => words_joined, ?_, ?_⟩
  · rintro ⟨root, hroot⟩
    obtain ⟨stray, hnests⟩ := treeOfEvents_eq_ok_iff.mp hroot
    exact ⟨hnests.outermost_eq, hnests.depth_eq 0⟩
  -- there is one element outermost, and the events nest to as many as there are
  · rintro ⟨hone, hdepth⟩
    obtain ⟨cs, ts, hnests⟩ := exists_nests hdepth
    obtain ⟨root, rfl⟩ := List.length_eq_one_iff.mp (hnests.outermost_eq.symm.trans hone)
    exact ⟨root, hnests.treeOfEvents_eq⟩
  · rintro past rest rfl
    exact ⟨treeOfEvents_skipped past rest, fun hdepth content =>
      treeOfEvents_text hdepth content rest⟩
  · rintro document rfl
    exact ⟨depth_ofDocument document, readDocument_eq_treeOfEvents⟩

/-- A pose that a comment and a child divide, with texts around it. -/
def splitPoseText : String :=
  "<?xml version='1.0'?>\"<pose>0 1 0<!--c--><w/> 0 0 <![CDATA[ 1 ]]></pose>\""

/-- The pose without its divisions. -/
def splitPose : Element :=
  { tag := "pose", text := some "0 1 0 0 0 1", children := [{ tag := "w" }] }

/-- The events that come before the pose. -/
def splitPosePast : List Event := [.skipped, .text "\""]

/-- The events of the pose, and what comes behind it. -/
def splitPoseRest : List Event :=
  [.start "pose" [], .text "0 1 0", .skipped, .empty "w" [], .text "0 0", .literal " 1 ",
    .finish "pose", .text "\""]

theorem events_splitPoseText :
    Event.ofDocument splitPoseText = (splitPosePast ++ splitPoseRest, none) := by
  decide +kernel

/-- The pose that is split by a comment is one text, and what stands outside is
ignored. -/
theorem treeOfEvents_splitPose :
    (Event.ofDocument splitPoseText).1 = splitPosePast ++ splitPoseRest ∧
      (Event.ofDocument splitPoseText).2 = none ∧ depth 0 splitPosePast = some 0 ∧
      treeOfEvents (splitPosePast ++ splitPoseRest) = .ok splitPose ∧
      outermost 0 (splitPosePast ++ splitPoseRest) = 1 ∧
      treeOfEvents (splitPosePast ++ .text "outside" :: splitPoseRest) =
        treeOfEvents (splitPosePast ++ splitPoseRest) ∧
      (readDocument splitPoseText).value = treeOfEvents (splitPosePast ++ splitPoseRest) := by
  have hevents := congrArg Prod.fst events_splitPoseText
  have hcomplete := congrArg Prod.snd events_splitPoseText
  have hdepth : depth 0 splitPosePast = some 0 := rfl
  have htree : treeOfEvents (splitPosePast ++ splitPoseRest) = .ok splitPose := rfl
  obtain ⟨hiff, -, -, houtside, hdocument⟩ :=
    treeOfEvents_of_nesting (splitPosePast ++ splitPoseRest)
  obtain ⟨hone, -⟩ := hiff.mp ⟨splitPose, htree⟩
  obtain ⟨-, htexts⟩ := houtside splitPosePast splitPoseRest rfl
  obtain ⟨-, hread⟩ := hdocument splitPoseText hevents
  exact ⟨hevents, hcomplete, hdepth, htree, hone, (htexts hdepth "outside").1, hread hcomplete⟩

end Scene.Markup
