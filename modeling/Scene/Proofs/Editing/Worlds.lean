/-
The worlds of a document under construction.

To a new document worlds are added one after the other, and now and then all of
them are removed.  A world whose name is taken is turned away with an error, and
then nothing else happens.  So what the document holds in the end is fixed by
the worlds that were offered since the last removal: the first of each name, in
the order in which they came.

Main statement: `worlds_throughout`.
-/
import Scene.Proofs.Editing.Document
import Scene.Proofs.Firsts

namespace Scene.Document

/-! ### Calls -/

/-- What can be done to the worlds of a document. -/
inductive WorldCall
  | add (w : World)
  | clear

namespace WorldCall

/-- The call, as an edit of the document. -/
def toEdit : WorldCall → Edit
  | .add w => .addWorld w
  | .clear => .clearWorlds

/-- The worlds that are offered, once those before it are known. -/
def offer (offered : List World) : WorldCall → List World
  | .add w => offered ++ [w]
  | .clear => []

/-- The worlds that were offered since the last removal. -/
def offered (calls : List WorldCall) : List World := calls.foldl offer []

@[simp] theorem offered_concat (calls : List WorldCall) (c : WorldCall) :
    offered (calls ++ [c]) = offer (offered calls) c := by
  rw [offered, List.foldl_append]
  rfl

theorem foldl_offer_add (before ws : List World) :
    (ws.map add).foldl offer before = before ++ ws := by
  induction ws generalizing before with
  | nil => simp
  | cons w ws ih => rw [List.map_cons, List.foldl_cons, ih, offer, List.append_assoc]; rfl

/-- What came before a removal does not count. -/
theorem offered_append_clear (past : List WorldCall) (ws : List World) :
    offered (past ++ .clear :: ws.map add) = ws := by
  rw [offered, List.foldl_append, List.foldl_cons]
  exact foldl_offer_add [] ws

end WorldCall

open WorldCall

/-- The document after calls, from a new one on. -/
def ofCalls (calls : List WorldCall) : Document := empty.editAll (calls.map toEdit)

theorem ofCalls_concat (calls : List WorldCall) (c : WorldCall) :
    ofCalls (calls ++ [c]) = (ofCalls calls).edit c.toEdit := by
  rw [ofCalls, List.map_append, List.map_singleton, editAll_concat]
  rfl

/-! ### What a document holds -/

/-- All that a document is, by what it was offered. -/
theorem ofCalls_eq (calls : List WorldCall) :
    ofCalls calls = { empty with worlds := firsts World.name (offered calls) } := by
  -- a call acts on what is held as it does on what is offered
  induction calls using List.reverseRecOn with
  | nil => rfl
  | append_singleton calls c ih =>
    rw [ofCalls_concat, ih, offered_concat]
    cases c with
    | clear => rfl
    | add w =>
      show (addWorld _ w).1 = _
      rw [addWorld_eq, offer, firsts_concat]
      simp only [mem_map_firsts]
      split
      · rfl
      · rfl

/-- **What a document holds after any additions and removals of worlds.**  It is
a new document but for its worlds, and these are the first of each name among the
worlds that were offered since the last removal, as they were offered: a world is
there exactly if none of its name was offered before it.  So there are as many as
there are names.  And whatever came before, the next world is turned away with one
error exactly if its name is taken, and the document is then left as it was. -/
theorem worlds_throughout (calls : List WorldCall) :
    ofCalls calls = { empty with worlds := firsts World.name (offered calls) } ∧
    (∀ w, w ∈ (ofCalls calls).worlds ↔ ∃ before after,
      offered calls = before ++ w :: after ∧ w.name ∉ before.map World.name) ∧
    (ofCalls calls).worlds.length = ((offered calls).map World.name).toFinset.card ∧
    ∀ w, (ofCalls calls).addWorld w =
      if w.name ∈ (ofCalls calls).worlds.map World.name then
        (ofCalls calls, [.duplicateName "world" w.name])
      else
        ({ ofCalls calls with worlds := (ofCalls calls).worlds ++ [w] }, []) := by
  -- all is known of the first of each name already
  have hworlds : (ofCalls calls).worlds = firsts World.name (offered calls) := by
    rw [ofCalls_eq]
  refine ⟨ofCalls_eq calls, ?_, ?_, addWorld_eq _⟩
  · exact fun w => hworlds ▸ mem_firsts_iff
  · exact hworlds ▸ length_firsts _ _

/-- Of the worlds after a removal the second of a name is turned away, whatever came
before. -/
example (past : List WorldCall) (a b : World) (hab : a.name ≠ b.name) :
    (ofCalls (past ++ .clear :: [b, a, b].map .add)).worlds = [b, a] := by
  rw [ofCalls_eq, offered_append_clear]
  simp [firsts, hab]

end Scene.Document
