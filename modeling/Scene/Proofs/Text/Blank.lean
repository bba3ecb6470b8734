/-
Texts without blanks at their ends, and rows of words.

A text is tidy if trimming leaves it alone and it is not empty.  Only its two
ends matter for this, so texts that are tidy can be joined, and a row of words
with a space between them is tidy and is cut into the same words again.

No word goes across a blank.  So trimming takes no word from a text, and the
words of texts with a space between them are those of one text after the other.
-/
import Mathlib.Data.List.DropRight
import Scene.Text.Blank

namespace Scene.Text

/-! ### Ends -/

/-- No character at either end of a text satisfies `p`. -/
def BareOf (p : Char → Bool) (cs : List Char) : Prop :=
  (∀ c, cs.head? = some c → p c = false) ∧ ∀ c, cs.getLast? = some c → p c = false

theorem dropWhile_eq_self {p : Char → Bool} {cs : List Char}
    (h : ∀ c, cs.head? = some c → p c = false) : cs.dropWhile p = cs := by
  cases cs with
  | nil => rfl
  | cons c cs => rw [List.dropWhile_cons_of_neg (by simp [h c rfl])]

theorem dropEndWhile_eq_self {p : Char → Bool} {cs : List Char}
    (h : ∀ c, cs.getLast? = some c → p c = false) : dropEndWhile p cs = cs := by
  rw [dropEndWhile, dropWhile_eq_self (by simpa using h), List.reverse_reverse]

/-- What is left when the ends are dropped has no such character at its ends. -/
theorem bareOf_dropEndWhile (p : Char → Bool) (cs : List Char) :
    BareOf p (dropEndWhile p (cs.dropWhile p)) := by
  have hhead {ds : List Char} {c : Char} (h : (ds.dropWhile p).head? = some c) : p c = false := by
    have := List.head?_dropWhile_not p ds
    rwa [h] at this
  constructor
  · intro c hc
    -- dropping at the end leaves the head, unless nothing is left at all
    have hprefix : dropEndWhile p (cs.dropWhile p) <+: cs.dropWhile p :=
      List.rdropWhile_prefix p (cs.dropWhile p)
    obtain ⟨ds, hds⟩ := hprefix
    refine hhead (show (cs.dropWhile p).head? = some c from ?_)
    rw [← hds, List.head?_append, hc]
    rfl
  · intro c hc
    rw [dropEndWhile, List.getLast?_reverse] at hc
    exact hhead hc

theorem trimChars_eq_self {cs : List Char} (h : BareOf isBlank cs) : trimChars cs = cs := by
  rw [trimChars, dropWhile_eq_self h.1, dropEndWhile_eq_self h.2]

/-! ### Tidy texts -/

/-- A text as it is found in a document. -/
def IsTidy (s : String) : Prop := s ≠ "" ∧ trim s = s

theorem isTidy_iff {s : String} : IsTidy s ↔ s.toList ≠ [] ∧ BareOf isBlank s.toList := by
  unfold IsTidy trim
  constructor
  · rintro ⟨hne, htrim⟩
    refine ⟨by simpa using hne, ?_⟩
    have := bareOf_dropEndWhile isBlank s.toList
    rwa [← htrim, String.toList_ofList]
  · rintro ⟨hne, hbare⟩
    rw [trimChars_eq_self hbare, String.ofList_toList]
    exact ⟨by simpa using hne, rfl⟩

/-- A trimmed text is tidy unless nothing is left of it. -/
theorem isTidy_trim {s : String} (h : trim s ≠ "") : IsTidy (trim s) := by
  refine isTidy_iff.mpr ⟨by simpa using h, ?_⟩
  rw [trim, String.toList_ofList]
  exact bareOf_dropEndWhile isBlank s.toList

/-- Tidy texts can be joined with whatever stands between them. -/
theorem IsTidy.join {s t : String} (hs : IsTidy s) (between : String) (ht : IsTidy t) :
    IsTidy (s ++ between ++ t) := by
  obtain ⟨hsne, hshead, -⟩ := isTidy_iff.mp hs
  obtain ⟨htne, -, htlast⟩ := isTidy_iff.mp ht
  rw [isTidy_iff, String.toList_append, String.toList_append]
  refine ⟨by simp [hsne], fun c hc => hshead c ?_, fun c hc => htlast c ?_⟩
  · rwa [List.append_assoc, List.head?_append_of_ne_nil _ hsne] at hc
  · rwa [List.getLast?_append_of_ne_nil _ htne] at hc

/-! ### Words -/

/-- A text in which there is no blank. -/
def IsWord (s : String) : Prop := s ≠ "" ∧ ∀ c ∈ s.toList, isBlank c = false

instance (s : String) : Decidable (IsWord s) :=
  decidable_of_iff (s ≠ "" ∧ s.toList.all (fun c => !isBlank c) = true) (by simp [IsWord])

theorem IsWord.isTidy {s : String} (h : IsWord s) : IsTidy s :=
  isTidy_iff.mpr ⟨by simpa using h.1, fun c hc => h.2 c (List.mem_of_head? hc),
    fun c hc => h.2 c (List.mem_of_getLast? hc)⟩

/-- A row of words is tidy. -/
theorem isTidy_intercalate {ws : List String} (hne : ws ≠ []) (h : ∀ w ∈ ws, IsWord w) :
    IsTidy (" ".intercalate ws) := by
  induction ws with
  | nil => exact absurd rfl hne
  | cons w ws ih =>
    cases ws with
    | nil =>
      rw [String.intercalate_singleton]
      exact (h w List.mem_cons_self).isTidy
    | cons w' ws =>
      -- the first word, a space, and a row that is tidy already
      rw [String.intercalate_cons_cons]
      exact (h w List.mem_cons_self).isTidy.join " "
        (ih (by simp) fun v hv => h v (List.mem_cons_of_mem _ hv))

theorem wordsOfChars_word {cs : List Char} (hne : cs ≠ []) (h : ∀ c ∈ cs, isBlank c = false) :
    wordsOfChars cs = [cs] := by
  rw [wordsOfChars, List.splitOnP_eq_singleton h]
  simp [hne]

theorem IsWord.words {s : String} (h : IsWord s) : words s = [s] := by
  rw [Text.words, wordsOfChars_word (by simpa using h.1) h.2]
  simp

/-- No word goes across a blank. -/
theorem wordsOfChars_append_blank {b : Char} (hb : isBlank b = true) (cs ds : List Char) :
    wordsOfChars (cs ++ b :: ds) = wordsOfChars cs ++ wordsOfChars ds := by
  simp only [wordsOfChars, List.splitOnP_append_cons cs ds hb, List.filter_append]

theorem wordsOfChars_dropWhile (cs : List Char) :
    wordsOfChars (cs.dropWhile isBlank) = wordsOfChars cs := by
  -- a blank in front is the end of a word of no characters
  induction cs with
  | nil => rfl
  | cons c cs ih =>
    cases hc : isBlank c with
    | true =>
      rw [List.dropWhile_cons_of_pos hc, ih]
      exact (wordsOfChars_append_blank hc [] cs).symm
    | false => rw [List.dropWhile_cons_of_neg (by simp [hc])]

theorem wordsOfChars_dropEndWhile (cs : List Char) :
    wordsOfChars (dropEndWhile isBlank cs) = wordsOfChars cs := by
  -- from the other end, where the last blank is dropped first
  induction cs using List.reverseRecOn with
  | nil => rfl
  | append_singleton cs c ih =>
    cases hc : isBlank c with
    | true =>
      rw [dropEndWhile, List.reverse_concat, List.dropWhile_cons_of_pos hc,
        wordsOfChars_append_blank hc]
      exact ih.trans (List.append_nil _).symm
    | false => rw [dropEndWhile_eq_self (by simp [hc])]

/-- Blanks at the ends of a text are in none of its words. -/
theorem words_trim (s : String) : words (trim s) = words s := by
  rw [words, trim, String.toList_ofList, trimChars, wordsOfChars_dropEndWhile,
    wordsOfChars_dropWhile]
  rfl

theorem words_append_space (s t : String) : words (s ++ " " ++ t) = words s ++ words t := by
  have hspace : (" " : String).toList = [' '] := rfl
  simp only [words, String.toList_append, hspace, List.append_assoc, List.singleton_append,
    wordsOfChars_append_blank (show isBlank ' ' = true from rfl), List.map_append]

/-- The words of texts with a space between them are those of one text after the
other. -/
theorem words_intercalate_eq_flatMap (ss : List String) :
    words (" ".intercalate ss) = ss.flatMap words := by
  induction ss with
  | nil => rfl
  | cons s ss ih =>
    cases ss with
    | nil => simp [String.intercalate_singleton]
    | cons t ss =>
      rw [String.intercalate_cons_cons, words_append_space, ih]
      rfl

/-- A row of words is cut into the same words. -/
theorem words_intercalate {ws : List String} (h : ∀ w ∈ ws, IsWord w) :
    words (" ".intercalate ws) = ws := by
  rw [words_intercalate_eq_flatMap, List.flatMap_congr fun w hw => (h w hw).words,
    List.flatMap_singleton']

end Scene.Text
