import Mathlib.Data.List.Infix

/-!
# Replacing in a text

Every occurrence of a pattern in a list is replaced, from the left and without overlaps. What stands before
an occurrence is kept if the pattern does not begin in it, which for a pattern with a mark at its front is
to be asked only where the mark stands.
-/

namespace ArchipelagoXL.Replace

variable {A : Type} [DecidableEq A]

/-- Replaces the occurrences after the next `skip` elements, which are dropped. -/
def replaceFrom (pat rep : List A) : ℕ → List A → List A
  | _, [] => []
  | skip + 1, _ :: rest => replaceFrom pat rep skip rest
  | 0, a :: rest =>
    if pat.isPrefixOf (a :: rest) then rep ++ replaceFrom pat rep (pat.length - 1) rest
    else a :: replaceFrom pat rep 0 rest

/-- Replaces all occurrences. -/
def replaceAll (pat rep l : List A) : List A := replaceFrom pat rep 0 l

variable {pat rep : List A}

@[simp] lemma replaceAll_nil : replaceAll pat rep [] = [] := rfl

lemma replaceFrom_eq (skip : ℕ) (l : List A) : replaceFrom pat rep skip l = replaceAll pat rep (l.drop skip) := by
  induction l generalizing skip with
  | nil => simp [replaceFrom]
  | cons a rest ih =>
    cases skip with
    | zero => rfl
    | succ skip => exact ih skip

/-- What the pattern does not begin at is kept. -/
lemma replaceAll_cons {a : A} {rest : List A} (notHere : ¬ pat <+: a :: rest) :
    replaceAll pat rep (a :: rest) = a :: replaceAll pat rep rest := by
  rw [replaceAll, replaceFrom, if_neg]
  · rfl
  · exact fun h => notHere (List.isPrefixOf_iff_prefix.mp h)

/-- An occurrence at the front is replaced. -/
lemma replaceAll_append (nonempty : pat ≠ []) (rest : List A) :
    replaceAll pat rep (pat ++ rest) = rep ++ replaceAll pat rep rest := by
  cases pat with
  | nil => exact absurd rfl nonempty
  | cons mark tail =>
    have here : (mark :: tail).isPrefixOf (mark :: (tail ++ rest)) = true :=
      List.isPrefixOf_iff_prefix.mpr (List.prefix_append (mark :: tail) rest)
    rw [replaceAll, List.cons_append, replaceFrom, if_pos here, replaceFrom_eq]
    simp

/-- What has not the first element of the pattern is kept. -/
lemma replaceAll_append_of_notMem {mark : A} {tail w : List A} (notMem : mark ∉ w) (rest : List A) :
    replaceAll (mark :: tail) rep (w ++ rest) = w ++ replaceAll (mark :: tail) rep rest := by
  induction w with
  | nil => rfl
  | cons a w ih =>
    obtain ⟨other, notMem⟩ := List.ne_and_not_mem_of_not_mem_cons notMem
    rw [List.cons_append, replaceAll_cons, ih notMem, List.cons_append]
    intro here
    exact other (List.cons_prefix_cons.mp here).1

/-- A text without the first element of the pattern is kept. -/
lemma replaceAll_of_notMem {mark : A} {tail w : List A} (notMem : mark ∉ w) :
    replaceAll (mark :: tail) rep w = w := by
  have kept := @replaceAll_append_of_notMem A _ rep mark tail w notMem []
  rwa [List.append_nil, replaceAll_nil, List.append_nil] at kept

end ArchipelagoXL.Replace
