import Mathlib.Data.List.TakeWhile
import Mathlib.Data.List.Infix
import Mathlib.Tactic.Common

/-!
# Runs

The longest stretches of a list whose elements are all of a kind. A function that changes each of them on its own, and
leaves their lengths, does to a run just what it does to the list that the run is (`onRuns_append`).
-/

namespace ArchipelagoXL.Runs

variable {A : Type}

/-- A stretch that can't be longer, with what is before and after it. -/
structure IsRun (p : A → Bool) (before run after : List A) : Prop where
  some : run ≠ []
  all : ∀ x ∈ run, p x = true
  last : ∀ x ∈ before.getLast?, p x = false
  next : ∀ x ∈ after.head?, p x = false

/-- A list with each of its runs changed. -/
def onRuns (p : A → Bool) (f : List A → List A) : List A → List A
  | [] => []
  | x :: rest =>
    if p x then f (x :: rest.takeWhile p) ++ onRuns p f (rest.dropWhile p)
    else x :: onRuns p f rest
termination_by l => l.length
decreasing_by
  · exact Nat.lt_succ_of_le (List.dropWhile_suffix p).length_le
  · exact Nat.lt_succ_self _

section
variable {p : A → Bool} {f : List A → List A} {before run after : List A}

lemma onRuns_cons_of_neg {x : A} (other : p x = false) (rest : List A) :
    onRuns p f (x :: rest) = x :: onRuns p f rest := by
  rw [onRuns, if_neg (by rw [other]; exact Bool.false_ne_true)]

/-- A run at the start of a list. -/
lemma onRuns_run (some : run ≠ []) (all : ∀ x ∈ run, p x = true) (next : ∀ x ∈ after.head?, p x = false) :
    onRuns p f (run ++ after) = f run ++ onRuns p f after := by
  cases run with
  | nil => exact absurd rfl some
  | cons x run =>
    have here := all x List.mem_cons_self
    have rest : ∀ y ∈ run, p y = true := fun y mem => all y (List.mem_cons_of_mem x mem)
    have taken : (run ++ after).takeWhile p = run := by
      rw [List.takeWhile_append_of_pos rest]
      cases after with
      | nil => simp
      | cons y after => rw [List.takeWhile_cons_of_neg (by simp [next y rfl]), List.append_nil]
    have dropped : (run ++ after).dropWhile p = after := by
      rw [List.dropWhile_append_of_pos rest]
      cases after with
      | nil => rfl
      | cons y after => rw [List.dropWhile_cons_of_neg (by simp [next y rfl])]
    rw [List.cons_append, onRuns, if_pos here, taken, dropped]

/-- Lists that don't meet inside a run are changed on their own. -/
lemma onRuns_append (apart : (∀ x ∈ before.getLast?, p x = false) ∨ ∀ x ∈ after.head?, p x = false) :
    onRuns p f (before ++ after) = onRuns p f before ++ onRuns p f after := by
  induction before using onRuns.induct p with
  | case1 => rw [List.nil_append, onRuns, List.nil_append]
  | case2 x rest here ih =>
    have all : ∀ y ∈ x :: rest.takeWhile p, p y = true := by
      intro y mem
      rcases List.mem_cons.mp mem with rfl | mem
      · exact here
      · exact List.mem_takeWhile_imp mem
    have split : x :: rest = (x :: rest.takeWhile p) ++ rest.dropWhile p := by
      rw [List.cons_append, List.takeWhile_append_dropWhile]
    have stop : ∀ y ∈ (rest.dropWhile p).head?, p y = false := by
      intro y first
      have other := List.head?_dropWhile_not p rest
      rw [first] at other
      simpa using other
    cases later : rest.dropWhile p with
    | nil =>
      rw [later, List.append_nil] at split
      have whole : ∀ y ∈ x :: rest, p y = true := by
        rw [split]
        exact all
      have next : ∀ y ∈ after.head?, p y = false := by
        refine apart.resolve_left fun last => ?_
        have wrong := last _ (List.getLast?_eq_some_getLast (List.cons_ne_nil x rest))
        rw [whole _ (List.getLast_mem _)] at wrong
        cases wrong
      have alone : onRuns p f (x :: rest.takeWhile p ++ []) = f (x :: rest.takeWhile p) ++ onRuns p f [] :=
        onRuns_run (List.cons_ne_nil x _) all (by simp)
      rw [List.append_nil, onRuns, List.append_nil] at alone
      rw [split, onRuns_run (List.cons_ne_nil x _) all next, alone]
    | cons y behind =>
      rw [later] at split stop ih
      have last : (x :: rest).getLast? = (y :: behind).getLast? := by
        rw [split, List.getLast?_append_of_ne_nil _ (List.cons_ne_nil y behind)]
      have stop' : ∀ z ∈ (y :: behind ++ after).head?, p z = false := stop
      rw [last] at apart
      rw [split, List.append_assoc, onRuns_run (List.cons_ne_nil x _) all stop', ih apart,
        onRuns_run (List.cons_ne_nil x _) all stop, List.append_assoc]
  | case3 x rest other ih =>
    have other := eq_false_of_ne_true other
    rw [List.cons_append, onRuns_cons_of_neg other, onRuns_cons_of_neg other, List.cons_append]
    congr 1
    apply ih
    refine apart.imp_left fun last y isLast => ?_
    cases rest with
    | nil => cases isLast
    | cons z rest => exact last y (by rwa [List.getLast?_cons_cons])

/-- A run is changed as the list that it is. -/
lemma IsRun.onRuns_eq (isRun : IsRun p before run after) :
    onRuns p f (before ++ (run ++ after)) = onRuns p f before ++ (f run ++ onRuns p f after) := by
  rw [onRuns_append (.inl isRun.last), onRuns_run isRun.some isRun.all isRun.next]

lemma length_onRuns (keeps : ∀ l, (f l).length = l.length) (l : List A) : (onRuns p f l).length = l.length := by
  induction l using onRuns.induct p with
  | case1 => rw [onRuns]
  | case2 x rest here ih =>
    rw [onRuns, if_pos here, List.length_append, ih, keeps, List.length_cons, List.length_cons,
      ← congrArg List.length (List.takeWhile_append_dropWhile (p := p) (l := rest)), List.length_append]
    omega
  | case3 x rest other ih => rw [onRuns, if_neg other, List.length_cons, List.length_cons, ih]

/-- What is the same for each run before and after its change is the same for the list. -/
lemma map_onRuns {B : Type} {g : A → B} (same : ∀ l, (f l).map g = l.map g) (l : List A) :
    (onRuns p f l).map g = l.map g := by
  induction l using onRuns.induct p with
  | case1 => rw [onRuns]
  | case2 x rest here ih =>
    rw [onRuns, if_pos here, List.map_append, ih, same, ← List.map_append, List.cons_append,
      List.takeWhile_append_dropWhile]
  | case3 x rest other ih => rw [onRuns, if_neg other, List.map_cons, ih, List.map_cons]

/-- An element of the changed list is in a changed run, or it is as it was and of another kind. -/
lemma mem_onRuns {l : List A} {x : A} (mem : x ∈ onRuns p f l) :
    (x ∈ l ∧ p x = false) ∨ ∃ r, x ∈ f r ∧ ∀ y ∈ r, y ∈ l ∧ p y = true := by
  induction l using onRuns.induct p with
  | case1 =>
    rw [onRuns] at mem
    cases mem
  | case2 y rest here ih =>
    rw [onRuns, if_pos here] at mem
    rcases List.mem_append.mp mem with mem | mem
    · refine .inr ⟨_, mem, ?_⟩
      intro z inRun
      rcases List.mem_cons.mp inRun with rfl | inRun
      · exact ⟨List.mem_cons_self, here⟩
      · exact ⟨List.mem_cons_of_mem y ((List.takeWhile_sublist p).subset inRun), List.mem_takeWhile_imp inRun⟩
    · have inside : ∀ z ∈ rest.dropWhile p, z ∈ y :: rest := fun z later =>
        List.mem_cons_of_mem y ((List.dropWhile_sublist p).subset later)
      rcases ih mem with ⟨old, other⟩ | ⟨r, changed, all⟩
      · exact .inl ⟨inside x old, other⟩
      · exact .inr ⟨r, changed, fun z inRun => ⟨inside z (all z inRun).1, (all z inRun).2⟩⟩
  | case3 y rest other ih =>
    rw [onRuns, if_neg other] at mem
    rcases List.mem_cons.mp mem with rfl | mem
    · exact .inl ⟨List.mem_cons_self, eq_false_of_ne_true other⟩
    · rcases ih mem with ⟨old, kind⟩ | ⟨r, changed, all⟩
      · exact .inl ⟨List.mem_cons_of_mem y old, kind⟩
      · exact .inr ⟨r, changed, fun z inRun => ⟨List.mem_cons_of_mem y (all z inRun).1, (all z inRun).2⟩⟩

/-- A run of the changed list was one before, if the change keeps the kinds of the elements. -/
lemma IsRun.of_onRuns {l : List A} (kinds : ∀ l, (f l).map p = l.map p) (isRun : IsRun p before run after)
    (whole : onRuns p f l = before ++ (run ++ after)) :
    ∃ r, run = f r ∧ ∀ x ∈ r, x ∈ l ∧ p x = true := by
  have keeps : ∀ l, (f l).length = l.length := fun l => by
    rw [← List.length_map p, kinds, List.length_map]
  have same : before.map p ++ (run.map p ++ after.map p) = l.map p := by
    rw [← List.map_append, ← List.map_append, ← whole, map_onRuns kinds]
  obtain ⟨b, rest, rfl, start, later⟩ := List.map_eq_append_iff.mp same.symm
  obtain ⟨r, a, rfl, middle, stop⟩ := List.map_eq_append_iff.mp later
  have was : IsRun p b r a := by
    refine ⟨?_, ?_, ?_, ?_⟩
    · rintro rfl
      exact isRun.some (List.map_eq_nil_iff.mp middle.symm)
    · intro x mem
      have kind : p x ∈ run.map p := middle ▸ List.mem_map_of_mem mem
      obtain ⟨y, inRun, same⟩ := List.mem_map.mp kind
      rw [← same, isRun.all y inRun]
    · intro x last
      have kind : p x ∈ (before.map p).getLast? := by
        rw [← start, List.getLast?_map, last]
        rfl
      rw [List.getLast?_map] at kind
      obtain ⟨y, isLast, same⟩ := Option.map_eq_some_iff.mp kind
      rw [← same, isRun.last y isLast]
    · intro x first
      have kind : p x ∈ (after.map p).head? := by
        rw [← stop, List.head?_map, first]
        rfl
      rw [List.head?_map] at kind
      obtain ⟨y, isFirst, same⟩ := Option.map_eq_some_iff.mp kind
      rw [← same, isRun.next y isFirst]
  rw [was.onRuns_eq] at whole
  have lengths : (onRuns p f b).length = before.length := by
    rw [length_onRuns keeps, ← List.length_map p, start, List.length_map]
  have lengths' : (f r).length = run.length := by
    rw [keeps, ← List.length_map p, middle, List.length_map]
  obtain ⟨-, rest⟩ := List.append_inj whole lengths
  obtain ⟨changed, -⟩ := List.append_inj rest lengths'
  refine ⟨r, changed.symm, ?_⟩
  intro x mem
  exact ⟨by simp [mem], was.all x mem⟩

end

end ArchipelagoXL.Runs
