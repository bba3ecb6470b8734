/-
What a row of events stands for.

The events between the start of an element and its end are its content: elements,
which have content of their own, and segments of text.  This is said by recursion
(`Nests`).  An end event must have an element to close.  Whether it has depends on
the number of open elements alone (`depth`), and so does whether an element is
outermost; what leaves no element open is what nests (`exists_nests`).

The segments of an element are trimmed and joined, which keeps their words.
-/
import Scene.Markup.Tree
import Scene.Proofs.Text.Blank

namespace Scene.Markup

/-! ### Depth -/

namespace Event

/-- How many elements are open after an event, if there is one for it to close. -/
def depthAfter (n : Nat) : Event → Option Nat
  | .start _ _ => some (n + 1)
  | .finish _ =>
    match n with
    | 0 => none
    | n + 1 => some n
  | _ => some n

/-- How many elements are open after events, if no end event lacks an element. -/
def depth : Nat → List Event → Option Nat
  | n, [] => some n
  | n, e :: es => (e.depthAfter n).bind fun n => depth n es

/-- The number of elements that begin where no other one is open. -/
def outermost : Nat → List Event → Nat
  | _, [] => 0
  | n, .start _ _ :: es => (if n = 0 then 1 else 0) + outermost (n + 1) es
  | n, .empty _ _ :: es => (if n = 0 then 1 else 0) + outermost n es
  | n, .finish _ :: es => outermost (n - 1) es
  | n, _ :: es => outermost n es

/-! ### Events of documents -/

/-- What the event of a token can be, given the tags of the open elements. -/
inductive OfLexeme (before : List String) : Event → Prop
  | text (content : String) : OfLexeme before (.text content)
  | literal (content : String) : OfLexeme before (.literal content)
  | skipped : OfLexeme before .skipped
  | start (tag : String) {content : List Char} {attributes : List (String × String)} :
      tagAttributes content = .ok attributes → OfLexeme before (.start tag attributes)
  | empty (tag : String) {content : List Char} {attributes : List (String × String)} :
      tagAttributes content = .ok attributes → OfLexeme before (.empty tag attributes)
  | finish {tag : String} {outer : List String} :
      before = tag :: outer → OfLexeme before (.finish tag)

variable {before : List String} {event : Event}

/-- An event of a tag has its attributes, all read. -/
theorem ofTag_eq_ok {make : String → List (String × String) → Event} {content : List Char}
    (h : ofTag make content = .ok event) :
    ∃ tag attributes, tagAttributes content = .ok attributes ∧ event = make tag attributes := by
  unfold ofTag at h
  dsimp only at h
  split at h
  · next attributes hattributes => exact ⟨_, attributes, hattributes, (Except.ok.inj h).symm⟩
  · cases h

/-- What a token can stand for, with what is open before it. -/
theorem ofLexeme_cases {l : Lexeme} (h : ofLexeme before l = .ok event) :
    OfLexeme before event := by
  unfold ofLexeme at h
  split at h
  · split at h
    · exact Except.ok.inj h ▸ .text _
    · cases h
  · exact Except.ok.inj h ▸ .literal _
  · obtain ⟨tag, attributes, hattributes, rfl⟩ := ofTag_eq_ok h
    exact .start tag hattributes
  · obtain ⟨tag, attributes, hattributes, rfl⟩ := ofTag_eq_ok h
    exact .empty tag hattributes
  · -- an end tag is only taken if it closes the innermost element
    unfold ofEndTag at h
    dsimp only at h
    split at h
    · cases h
    · split at h
      · next hsame => exact Except.ok.inj h ▸ .finish (congrArg (· :: _) hsame)
      · cases h
  · exact Except.ok.inj h ▸ .skipped

/-- The tags of the open elements are as many as there are open elements. -/
theorem depthAfter_ofLexeme {l : Lexeme} (h : ofLexeme before l = .ok event) :
    event.depthAfter before.length = some (opened before event).length := by
  cases ofLexeme_cases h with
  -- the tag of an end event is that of the innermost element, so there is one to close
  | finish hbefore =>
    rw [hbefore]
    rfl
  | _ => rfl

/-- Events of tokens never close more than is open. -/
theorem depth_ofLexemes (before : List String) (ls : List Lexeme) :
    depth before.length (ofLexemes before ls).1 ≠ none := by
  induction ls generalizing before with
  | nil => exact Option.some_ne_none _
  | cons l ls ih =>
    rw [ofLexemes]
    split
    · exact Option.some_ne_none _
    · next event hevent =>
      rw [depth, depthAfter_ofLexeme hevent]
      exact ih (opened before event)

/-- No end event of a document lacks an element. -/
theorem depth_ofDocument (document : String) : depth 0 (Event.ofDocument document).1 ≠ none :=
  depth_ofLexemes [] (tokens document).1

end Event

open Event

/-! ### Nesting -/

/-- Texts with one space between them, if there are any. -/
def row : List String → Option String
  | [] => none
  | texts => some (" ".intercalate texts)

/-- The text of an element with segments: they are trimmed, and those of which
nothing is left are dropped. -/
def joined (segments : List String) : Option String :=
  row ((segments.map Text.trim).filter (· ≠ ""))

/-- An element with its content. -/
def assemble (tag : String) (attributes : List (String × String)) (children : List Element)
    (segments : List String) : Element :=
  { tag, attributes, text := joined segments, children }

/-- Events stand for elements side by side, with segments of text around them. -/
inductive Nests : List Event → List Element → List String → Prop
  | nil : Nests [] [] []
  | skipped {es cs ts} : Nests es cs ts → Nests (.skipped :: es) cs ts
  | text {es cs ts} (content : String) : Nests es cs ts →
      Nests (.text content :: es) cs (content :: ts)
  | literal {es cs ts} (content : String) : Nests es cs ts →
      Nests (.literal content :: es) cs (content :: ts)
  | empty {es cs ts} (tag : String) (attributes : List (String × String)) : Nests es cs ts →
      Nests (.empty tag attributes :: es) ({ tag, attributes } :: cs) ts
  | element {inner es children cs segments ts} (tag : String)
      (attributes : List (String × String)) (closing : String) :
      Nests inner children segments → Nests es cs ts →
      Nests (.start tag attributes :: (inner ++ .finish closing :: es))
        (assemble tag attributes children segments :: cs) ts

/-- Events close the elements that are open, one after another, and all that they
open themselves. -/
inductive Closes : Nat → List Event → Prop
  | nested {es cs ts} : Nests es cs ts → Closes 0 es
  | finish {n inner es cs ts} (closing : String) : Nests inner cs ts → Closes n es →
      Closes (n + 1) (inner ++ .finish closing :: es)

variable {es : List Event} {cs : List Element} {ts : List String}

/-- The depth after all events is found in two stages. -/
theorem depth_append (n : Nat) (es fs : List Event) :
    depth n (es ++ fs) = (depth n es).bind fun m => depth m fs := by
  induction es generalizing n with
  | nil => rfl
  | cons e es ih => simp only [List.cons_append, depth, Option.bind_assoc, ih]

/-- What nests leaves as many elements open as there were before. -/
theorem Nests.depth_eq (h : Nests es cs ts) (n : Nat) : depth n es = some n := by
  induction h generalizing n with
  | nil => rfl
  | skipped _ ih => exact ih n
  | text _ _ ih => exact ih n
  | literal _ _ ih => exact ih n
  | empty _ _ _ ih => exact ih n
  | element tag attributes closing _ _ ihinner ih =>
    simp only [depth, depthAfter, Option.bind_some, depth_append, ihinner]
    exact ih n

/-- What nests and what follows it are counted apart. -/
theorem Nests.outermost_append (h : Nests es cs ts) (n : Nat) (fs : List Event) :
    outermost n (es ++ fs) = (if n = 0 then cs.length else 0) + outermost n fs := by
  induction h generalizing n fs with
  | nil => simp
  | skipped _ ih => exact ih n fs
  | text _ _ ih => exact ih n fs
  | literal _ _ ih => exact ih n fs
  | empty tag attributes _ ih =>
    simp only [List.cons_append, outermost, ih, List.length_cons]
    split <;> omega
  | element tag attributes closing _ _ ihinner ih =>
    -- nothing in the element is outermost
    simp only [List.cons_append, List.append_assoc, outermost, ihinner, Nat.add_one_ne_zero,
      if_false, Nat.zero_add, Nat.add_sub_cancel, ih, List.length_cons]
    split <;> omega

/-- Events that nest have as many outermost elements as they nest to. -/
theorem Nests.outermost_eq (h : Nests es cs ts) : outermost 0 es = cs.length := by
  simpa [outermost] using h.outermost_append 0 []

/-! ### What leaves nothing open nests -/

/-- Events in front that nest with whatever nests behind them. -/
theorem Closes.prepend {n : Nat} (front : List Event)
    (hfront : ∀ es cs ts, Nests es cs ts → ∃ cs' ts', Nests (front ++ es) cs' ts')
    (h : Closes n es) : Closes n (front ++ es) := by
  cases h with
  | nested h =>
    obtain ⟨cs', ts', h'⟩ := hfront _ _ _ h
    exact .nested h'
  | finish closing h hrest =>
    obtain ⟨cs', ts', h'⟩ := hfront _ _ _ h
    rw [← List.append_assoc]
    exact .finish closing h' hrest

/-- Events that come down to depth zero close what is open. -/
theorem closes_of_depth {n : Nat} (h : depth n es = some 0) : Closes n es := by
  -- by the first event; `n` counts the elements that were opened before and are to be closed
  induction es generalizing n with
  | nil =>
    obtain rfl : n = 0 := Option.some.inj h
    exact .nested .nil
  | cons e es ih =>
    cases e with
    | start tag attributes =>
      have hclose : Closes (n + 1) es := ih h
      clear ih h
      -- the first end event that is left over closes this element
      cases hclose with
      | @finish _ inner es _ _ closing hinner hrest =>
        have hfront := hrest.prepend (.start tag attributes :: (inner ++ [.finish closing]))
          fun _ _ _ hes => ⟨_, _, by simpa using Nests.element tag attributes closing hinner hes⟩
        simpa using hfront
    | empty tag attributes =>
      exact Closes.prepend [.empty tag attributes]
        (fun _ _ _ hes => ⟨_, _, .empty tag attributes hes⟩) (ih h)
    -- an end event needs an element to close, and here it closes one of those before
    | finish closing =>
      cases n with
      | zero => cases h
      | succ n => exact .finish closing .nil (ih h)
    | text content =>
      exact Closes.prepend [.text content] (fun _ _ _ hes => ⟨_, _, .text content hes⟩) (ih h)
    | literal content =>
      exact Closes.prepend [.literal content] (fun _ _ _ hes => ⟨_, _, .literal content hes⟩) (ih h)
    | skipped =>
      exact Closes.prepend [.skipped] (fun _ _ _ hes => ⟨_, _, .skipped hes⟩) (ih h)

/-- What leaves nothing open nests. -/
theorem exists_nests (h : depth 0 es = some 0) : ∃ cs ts, Nests es cs ts := by
  cases closes_of_depth h with
  | nested h => exact ⟨_, _, h⟩

/-! ### Segments -/

theorem row_concat (ws : List String) (w : String) :
    row (ws ++ [w]) = some (((row ws).map (· ++ " ")).getD "" ++ w) := by
  induction ws with
  | nil => simp [row]
  | cons v ws ih =>
    cases ws with
    | nil => simp [row]
    | cons u ws =>
      simp only [row, List.cons_append, Option.map_some, Option.getD_some, Option.some.injEq,
        String.intercalate_cons_cons] at ih ⊢
      rw [ih]
      simp only [String.append_assoc]

/-- One segment more is joined by a space, unless it is blank. -/
theorem joined_concat (ts : List String) (content : String) : joined (ts ++ [content]) =
    if Text.trim content = "" then joined ts
    else some (((joined ts).map (· ++ " ")).getD "" ++ Text.trim content) := by
  unfold joined
  rw [List.map_append, List.map_singleton, List.filter_append]
  split
  · next h => simp [h]
  · next h => rw [List.filter_cons_of_pos (by simpa using h), List.filter_nil, row_concat]

/-- The words of a row are those of its members. -/
theorem words_row (ws : List String) : Text.words ((row ws).getD "") = ws.flatMap Text.words := by
  cases ws with
  | nil => rfl
  | cons w ws => exact Text.words_intercalate_eq_flatMap (w :: ws)

/-- The words of an element are those of its segments, one after another. -/
theorem words_joined (ts : List String) :
    Text.words ((joined ts).getD "") = ts.flatMap Text.words := by
  rw [joined, words_row]
  induction ts with
  | nil => rfl
  | cons t ts ih =>
    rw [List.map_cons, List.flatMap_cons, ← Text.words_trim t]
    -- a segment of which nothing is left has no words either
    by_cases h : Text.trim t = ""
    · rw [List.filter_cons_of_neg (by simpa using h), ih, h]
      rfl
    · rw [List.filter_cons_of_pos (by simpa using h), List.flatMap_cons, ih]

end Scene.Markup
