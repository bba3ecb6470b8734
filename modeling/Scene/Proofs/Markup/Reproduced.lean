/-
Documents are reproduced.

A tree is written as a document that is read as the same tree if its names are
ordinary ones, the attributes of each element differ, and its texts are tidy.
Values of attributes may be anything.

The last two conditions are no restriction on trees that were read.  Texts are
tidy because they were trimmed, and attributes differ because reading them ends
at a key that was there before; what is read into an open element later changes
neither.  So an accepted document whose names are ordinary can be written anew,
however it was written, and nothing of its tree is lost.

Main statement: `reproduced`.
-/
import Mathlib.Data.List.Nodup
import Scene.Proofs.Markup.RoundTrip

namespace Scene

open Markup

/-! ### Ordinary names -/

namespace Markup

/-- A character of an ordinary name. -/
def isOrdinaryChar (c : Char) : Bool :=
  c.isAlphanum || c == '_' || c == '-' || c == '.' || c == ':'

/-- Whether a name is made of letters, digits and a few marks, and begins with a
letter or an underscore. -/
def isOrdinaryName (name : String) : Bool :=
  match name.toList with
  | [] => false
  | c :: cs => (c.isAlpha || c == '_') && cs.all isOrdinaryChar

/-- The characters that no name holds. -/
def notInNames : List Char := [' ', '\t', '\r', '\n', '<', '>', '\'', '"', '/', '=', '!', '?']

theorem isNameChar_iff_not_mem {c : Char} : isNameChar c = true ↔ c ∉ notInNames := by
  simp [isNameChar, isSpace, isMark, notInNames, and_assoc]

/-- Ordinary characters can stand in names. -/
theorem isNameChar_of_isOrdinaryChar {c : Char} (h : isOrdinaryChar c = true) :
    isNameChar c = true := by
  -- it is enough to look at the characters that no name holds: there are twelve of them
  have hnone : notInNames.all (fun d => !isOrdinaryChar d) = true := rfl
  refine isNameChar_iff_not_mem.mpr fun hc => ?_
  have hnot := List.all_eq_true.mp hnone c hc
  rw [h] at hnot
  cases hnot

/-- Ordinary names are names. -/
theorem isName_of_isOrdinaryName {name : String} (h : isOrdinaryName name = true) :
    IsName name := by
  unfold isOrdinaryName at h
  split at h
  · cases h
  · next c cs hchars =>
    obtain ⟨hc, hcs⟩ := Bool.and_eq_true_iff.mp h
    refine ⟨fun heq => by simp [heq] at hchars, ?_⟩
    rw [hchars]
    refine List.forall_mem_cons.mpr ⟨isNameChar_of_isOrdinaryChar ?_, fun d hd => ?_⟩
    · rcases Bool.or_eq_true_iff.mp hc with hc | hc
      · simp [isOrdinaryChar, Char.isAlphanum, hc]
      · simp [isOrdinaryChar, hc]
    · exact isNameChar_of_isOrdinaryChar (List.all_eq_true.mp hcs d hd)

end Markup

/-! ### Trees -/

namespace Element

/-- The property holds of every element of a tree. -/
inductive Throughout (P : Element → Prop) : Element → Prop
  | mk (e : Element) : P e → (∀ c ∈ e.children, c.Throughout P) → e.Throughout P

variable {P : Element → Prop} {e c : Element}

/-- What holds throughout holds of the element itself. -/
theorem Throughout.here (h : e.Throughout P) : P e := by
  cases h with
  | mk _ hhere _ => exact hhere

/-- What holds throughout holds throughout each child. -/
theorem Throughout.child (h : e.Throughout P) (hc : c ∈ e.children) : c.Throughout P := by
  cases h with
  | mk _ _ hchildren => exact hchildren c hc

/-- Tag and attributes have ordinary names. -/
def HasOrdinaryNames (e : Element) : Prop :=
  isOrdinaryName e.tag = true ∧ ∀ a ∈ e.attributes, isOrdinaryName a.1 = true

/-- No two attributes have the same name. -/
def HasDistinctAttributes (e : Element) : Prop := (e.attributes.map Prod.fst).Nodup

/-- Ordinary names and distinct attributes throughout make an element well
named. -/
theorem wellNamed_of_throughout (hnames : e.Throughout HasOrdinaryNames)
    (hdistinct : e.Throughout HasDistinctAttributes) : e.WellNamed := by
  induction e using induction_children with
  | h e ih =>
    obtain ⟨htag, hattributes⟩ := hnames.here
    refine ⟨e, isName_of_isOrdinaryName htag, ?_, hdistinct.here, ?_⟩
    · exact fun a ha => isName_of_isOrdinaryName (hattributes a ha)
    · exact fun c hc => ih c hc (hnames.child hc) (hdistinct.child hc)

end Element

/-! ### Attributes that are read -/

namespace Markup

variable {found : List FoundAttribute} {position : Nat}

/-- A key that was there before is not read again. -/
theorem key_ne_of_readAttribute {c : Char} {cs rest : List Char} {a : FoundAttribute}
    (h : readAttribute found position c cs = .ok (a, rest)) : ∀ b ∈ found, b.key ≠ a.key := by
  simp only [readAttribute] at h
  split at h
  · split at h
    · cases h
    -- a key that is found again is an error, so here the search found none
    · next hnew =>
      split at h
      · cases h
      · split at h
        · cases h
        · obtain ⟨rfl, -⟩ := Prod.mk.inj (Except.ok.inj h)
          intro b hb
          simpa using List.find?_eq_none.mp hnew b hb
  · cases h

/-- Attributes that are read have distinct names. -/
theorem nodup_readAttributes {cs : List Char} {all : List FoundAttribute}
    (h : readAttributes found position cs = .ok all)
    (hfound : (found.map FoundAttribute.key).Nodup) : (all.map FoundAttribute.key).Nodup := by
  fun_induction readAttributes found position cs with
  | case1 =>
    cases h
    exact hfound
  | case2 => cases h
  -- the new key goes behind those that were found
  | case3 found position cs c rest hcs start a behind ha ih =>
    have hnew := key_ne_of_readAttribute ha
    refine ih h ?_
    rw [List.map_append, List.nodup_append]
    refine ⟨hfound, List.nodup_singleton _, fun key hkey key' hkey' => ?_⟩
    obtain ⟨b, hb, rfl⟩ := List.mem_map.mp hkey
    rw [List.mem_singleton.mp hkey']
    exact hnew b hb

/-- The attributes of a tag have different names. -/
theorem nodup_tagAttributes {content : List Char} {attributes : List (String × String)}
    (h : tagAttributes content = .ok attributes) : (attributes.map Prod.fst).Nodup := by
  unfold tagAttributes at h
  cases hread : readAttributes [] (Text.byteLength (tagName content))
      (content.dropWhile fun c => !isSpace c) with
  | error e =>
    rw [hread] at h
    cases h
  | ok found =>
    rw [hread] at h
    obtain rfl := Except.ok.inj h
    -- keys are rows of characters here, and names are the texts of these
    have hkeys := nodup_readAttributes hread List.nodup_nil
    rw [List.map_map]
    have hnames := hkeys.map (f := String.ofList) fun _ _ => String.ofList_injective
    rwa [List.map_map] at hnames

/-! ### Events of a document -/

open Element

theorem distinct_without_children (tag : String) (attributes : List (String × String))
    (h : (attributes.map Prod.fst).Nodup) :
    Throughout HasDistinctAttributes { tag, attributes } := ⟨_, h, List.forall_mem_nil _⟩

/-- Tags begin elements with distinct attributes. -/
theorem begins_of_ofLexeme {opened : List String} {l : Lexeme} {event : Event}
    (h : Event.ofLexeme opened l = .ok event) :
    event.Begins (Throughout HasDistinctAttributes) := by
  cases Event.ofLexeme_cases h with
  | start tag hattributes =>
    exact distinct_without_children tag _ (nodup_tagAttributes hattributes)
  | empty tag hattributes =>
    exact distinct_without_children tag _ (nodup_tagAttributes hattributes)
  | _ => trivial

/-- Elements of a document begin with attributes that differ. -/
theorem begins_of_mem_ofLexemes {opened : List String} {ls : List Lexeme} :
    ∀ event ∈ (Event.ofLexemes opened ls).1, event.Begins (Throughout HasDistinctAttributes) := by
  induction ls generalizing opened with
  | nil => exact List.forall_mem_nil _
  | cons l ls ih =>
    rw [Event.ofLexemes]
    split
    · exact List.forall_mem_nil _
    · next event hevent =>
      exact List.forall_mem_cons.mpr ⟨begins_of_ofLexeme hevent, ih⟩

/-- Neither children nor texts make attributes the same. -/
theorem kept_distinctAttributes : Kept (Throughout HasDistinctAttributes) := by
  refine ⟨fun {e c} he hc => ⟨_, he.here, fun d hd => ?_⟩, fun {segment e} _ he => ?_⟩
  -- the children are those from before and the new one
  · rcases List.mem_append.mp hd with hd | hd
    · exact he.child hd
    · exact List.mem_singleton.mp hd ▸ hc
  · unfold Builder.addText
    split
    · exact ⟨_, he.here, fun c hc => he.child hc⟩
    · exact ⟨_, he.here, fun c hc => he.child hc⟩

/-- In every document that is read, attributes are distinct throughout. -/
theorem distinct_of_readDocument {document : String} {root : Element}
    (h : (readDocument document).value = .ok root) : root.Throughout HasDistinctAttributes :=
  kept_distinctAttributes.of_readDocument begins_of_mem_ofLexemes h

end Markup

/-! ### Documents -/

namespace Element

theorem readDocument_of_ofDocument {document : String} {e : Element}
    (h : ofDocument document = .ok e) : (readDocument document).value = .ok e := by
  unfold ofDocument at h
  cases hread : (readDocument document).value with
  | error => simp [hread, Except.mapError] at h
  | ok root => simpa [hread, Except.mapError] using h

/-- A tidy element with ordinary names and distinct attributes is read again
from its document. -/
theorem ofDocument_toDocument {e : Element} (hnames : e.Throughout HasOrdinaryNames)
    (hdistinct : e.Throughout HasDistinctAttributes) (htidy : e.Tidy) :
    ofDocument e.toDocument = .ok e := by
  rw [ofDocument, readDocument_toDocument (wellNamed_of_throughout hnames hdistinct) htidy]
  rfl

/-- **Documents of ordinary names are reproduced.**  A tree with ordinary names,
different attributes and tidy texts is read back from the document it is written
as.  A tree that was read from any document has different attributes and tidy
texts, so if its names are ordinary, it is read back, too. -/
theorem reproduced :
    (∀ e : Element, e.Throughout HasOrdinaryNames → e.Throughout HasDistinctAttributes →
      e.Tidy → ofDocument e.toDocument = .ok e) ∧
    ∀ (document : String) (e : Element), ofDocument document = .ok e →
      e.Tidy ∧ e.Throughout HasDistinctAttributes ∧
      (e.Throughout HasOrdinaryNames → ofDocument e.toDocument = .ok e) := by
  refine ⟨fun e => ofDocument_toDocument, fun document e h => ?_⟩
  have hread := readDocument_of_ofDocument h
  have htidy := tidy_of_readDocument hread
  have hdistinct := distinct_of_readDocument hread
  exact ⟨htidy, hdistinct, fun hnames => ofDocument_toDocument hnames hdistinct htidy⟩

/-- A text with markup of all kinds in it. -/
def noteText : String :=
  "<note by='a &quot;b&quot; &amp; &#39;c&#39; &lt;d>&#10;' n=\"\">
     1 &lt; 2 <!-- and --> &amp;&amp; <b:item/><![CDATA[ 3 > 2 ]]><_x>\"two\"\nlines</_x ></note>"

/-- The tree that it stands for. -/
def noteElement : Element :=
  { tag := "note", attributes := [("by", "a \"b\" & 'c' <d>\n"), ("n", "")]
    text := some "1 < 2 && 3 > 2"
    children := [{ tag := "b:item" }, { tag := "_x", text := some "\"two\"\nlines" }] }

theorem events_noteText : Event.ofDocument noteText = ([
    .start "note" [("by", "a \"b\" & 'c' <d>\n"), ("n", "")], .text "1 < 2", .skipped,
    .text "&&", .empty "b:item" [], .literal " 3 > 2 ", .start "_x" [], .text "\"two\"\nlines",
    .finish "_x", .finish "note"], none) := by
  decide +kernel

/-- A note with marks, references and line breaks is reproduced. -/
theorem reproduced_note :
    ofDocument noteText = .ok noteElement ∧ noteElement.Throughout HasOrdinaryNames ∧
      noteElement.Tidy ∧ noteElement.Throughout HasDistinctAttributes ∧
      ofDocument noteElement.toDocument = .ok noteElement := by
  have hread : ofDocument noteText = .ok noteElement := by
    rw [ofDocument, readDocument, events_noteText]
    rfl
  have hnames : noteElement.Throughout HasOrdinaryNames := by
    refine ⟨_, ⟨by decide, by decide⟩, ?_⟩
    simp only [noteElement, List.forall_mem_cons]
    exact ⟨⟨_, ⟨by decide, by decide⟩, by simp⟩, ⟨_, ⟨by decide, by decide⟩, by simp⟩, by simp⟩
  obtain ⟨htidy, hdistinct, -⟩ := reproduced.2 noteText noteElement hread
  exact ⟨hread, hnames, htidy, hdistinct, reproduced.1 noteElement hnames hdistinct htidy⟩

end Element

end Scene
