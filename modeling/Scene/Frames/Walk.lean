/-
Walks along references.

Each position among finitely many has at most one reference, which leads to a
position or to a name that has none.  A walk follows references until it comes
to a position without one, to a name without a position, or back to a position
where it was before.  One of the three happens, since every step leaves one
position fewer that was not visited: that number is the measure of the
recursion, and no bound on the number of steps appears anywhere.

A survey walks from many starts and never walks a stretch twice.  It keeps the
positions that earlier walks went through: whatever is wrong further on from
there was found then, so a walk that reaches one of them has nothing to report.
-/

namespace Scene

variable {n : Nat}

/-- Where a reference leads. -/
inductive Step (n : Nat) where
  /-- There is no reference. -/
  | stop
  /-- It names nothing. -/
  | missing (name : String)
  /-- It names a position. -/
  | to (i : Fin n)
deriving DecidableEq, Repr

/-- How a walk ends. -/
inductive Ending (n : Nat) where
  /-- At a position without a reference. -/
  | stopped
  /-- At a reference that names nothing. -/
  | missing (referrer : Fin n) (name : String)
  /-- At a position that the walk went through before. -/
  | back (i : Fin n)
  /-- At a position that an earlier walk went through. -/
  | known
deriving DecidableEq, Repr

/-- A walk: the positions it goes through, and how it ends. -/
structure Walk (n : Nat) where
  trail : List (Fin n)
  ending : Ending n
deriving DecidableEq, Repr

/-- The walk with a position in front. -/
def Walk.cons (i : Fin n) (w : Walk n) : Walk n := { w with trail := i :: w.trail }

/-! ### The measure -/

/-- Number of positions that are not in a list. -/
def unvisited (visited : List (Fin n)) : Nat :=
  ((List.finRange n).filter fun i => !visited.contains i).length

theorem length_filter_lt {α : Type} {p q : α → Bool} {l : List α} {a : α} (ha : a ∈ l)
    (hq : q a = true) (hp : p a = false) (hpq : ∀ x, p x = true → q x = true) :
    (l.filter p).length < (l.filter q).length := by
  have hle (l : List α) : (l.filter p).length ≤ (l.filter q).length := by
    rw [← List.countP_eq_length_filter, ← List.countP_eq_length_filter]
    exact List.countP_mono_left fun x _ => hpq x
  induction l with
  | nil => simp at ha
  | cons x l ih =>
    rcases List.mem_cons.mp ha with rfl | ha
    -- only `q` counts `a`, and it counts of the rest all that `p` does
    · have := hle l
      simp only [List.filter_cons, hq, hp, if_true, List.length_cons]
      simp only [Bool.false_eq_true, if_false]
      omega
    · have h := ih ha
      cases hx : p x with
      | true => simp [hx, hpq x hx, h]
      | false =>
        cases hy : q x with
        | true =>
          simp only [List.filter_cons, hx, hy, if_true, List.length_cons]
          simp only [Bool.false_eq_true, if_false]
          omega
        | false => simpa [List.filter_cons, hx, hy] using h

/-- One position that was not visited fewer. -/
theorem unvisited_cons_lt {visited : List (Fin n)} {i : Fin n}
    (h : visited.contains i = false) : unvisited (i :: visited) < unvisited visited := by
  apply length_filter_lt (List.mem_finRange i)
  · rw [h]
    rfl
  · simp
  · intro x hx
    simp only [List.contains_cons, Bool.not_or, Bool.and_eq_true] at hx
    exact hx.2

/-! ### One walk -/

/-- Follow references from a position, after a walk through `visited`. -/
def walk (next : Fin n → Step n) (visited : List (Fin n)) (i : Fin n) : Walk n :=
  match _h : visited.contains i with
  | true => ⟨[], .back i⟩
  | false =>
    match next i with
    | .stop => ⟨[i], .stopped⟩
    | .missing name => ⟨[i], .missing i name⟩
    | .to j => (walk next (i :: visited) j).cons i
termination_by unvisited visited
decreasing_by exact unvisited_cons_lt _h

/-! ### Many walks -/

/-- Follow references from a position, after a walk through `visited`, until a
position of `settled`. -/
def explore (next : Fin n → Step n) (settled visited : List (Fin n)) (i : Fin n) : Walk n :=
  if settled.contains i then
    ⟨[], .known⟩
  else
    match _h : visited.contains i with
    | true => ⟨[], .back i⟩
    | false =>
      match next i with
      | .stop => ⟨[i], .stopped⟩
      | .missing name => ⟨[i], .missing i name⟩
      | .to j => (explore next settled (i :: visited) j).cons i
termination_by unvisited visited
decreasing_by exact unvisited_cons_lt _h

/-- Something wrong with references. -/
inductive Finding (n : Nat) where
  /-- A reference names nothing. -/
  | missing (referrer : Fin n) (name : String)
  /-- References go round in a circle; its first position is also the last. -/
  | loop (members : List (Fin n))
deriving DecidableEq, Repr

/-- What a walk found.  A circle is reported without the way into it. -/
def Walk.findings (w : Walk n) : List (Finding n) :=
  match w.ending with
  | .stopped | .known => []
  | .missing referrer name => [.missing referrer name]
  | .back i => [.loop ((w.trail.dropWhile fun j => j != i) ++ [i])]

/-- Walk from every start, each time only as far as no walk went before. -/
def survey (next : Fin n → Step n) (settled : List (Fin n)) : List (Fin n) → List (Finding n)
  | [] => []
  | start :: starts =>
    let w := explore next settled [] start
    -- what is wrong behind `w.trail` has been reported now
    w.findings ++ survey next (w.trail ++ settled) starts

end Scene
