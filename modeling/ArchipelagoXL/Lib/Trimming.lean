import Mathlib.Data.List.DropRight
import Mathlib.Data.List.Infix
import Mathlib.Tactic.Common

/-!
# Trimming

A list without the elements of a kind at its two ends. It is the one bare list that the elements of the kind can be
put around (`trimmed_pad`), so what is bare and stands at an end of the list also stands at an end of the trimmed one
(`suffix_trimmed`), and taking away a part that is not all of the kind makes the trimmed list shorter
(`length_trimmed_lt_of_append`).
-/

namespace ArchipelagoXL.Trimming

variable {A : Type}

/-- A list without the elements of a kind at its ends. -/
def trimmed (p : A → Bool) (l : List A) : List A := (l.dropWhile p).rdropWhile p

/-- No element of the kind stands at an end. -/
structure Bare (p : A → Bool) (l : List A) : Prop where
  first : ∀ x ∈ l.head?, p x = false
  last : ∀ x ∈ l.getLast?, p x = false

variable {p : A → Bool} {l m a b : List A}

lemma Bare.nil : Bare p [] := ⟨by simp, by simp⟩

lemma Bare.reverse (bare : Bare p l) : Bare p l.reverse := by
  constructor
  · rw [List.head?_reverse]
    exact bare.last
  · rw [List.getLast?_reverse]
    exact bare.first

/-- A bare list ends with an element of another kind, if it has any. -/
lemma Bare.rdropWhile_eq (bare : Bare p l) : l.rdropWhile p = l := by
  apply List.rdropWhile_eq_self_iff.mpr
  intro some
  rw [bare.last _ (List.getLast?_eq_some_getLast some)]
  exact Bool.false_ne_true

lemma Bare.dropWhile_append_eq (bare : Bare p l) (some : l ≠ []) (m : List A) : (l ++ m).dropWhile p = l ++ m := by
  cases l with
  | nil => exact absurd rfl some
  | cons x l =>
    rw [List.cons_append]
    exact List.dropWhile_cons_of_neg (by simp [bare.first x rfl])

lemma rdropWhile_append_of_all (all : ∀ x ∈ b, p x = true) (l : List A) : (l ++ b).rdropWhile p = l.rdropWhile p := by
  rw [List.rdropWhile, List.reverse_append, List.dropWhile_append_of_pos, List.rdropWhile]
  intro x mem
  exact all x (List.mem_reverse.mp mem)

/-- What is put around a bare list is trimmed away. -/
lemma trimmed_pad (left : ∀ x ∈ a, p x = true) (right : ∀ x ∈ b, p x = true) (bare : Bare p l) :
    trimmed p (a ++ l ++ b) = l := by
  rw [trimmed, List.append_assoc, List.dropWhile_append_of_pos left]
  by_cases some : l = []
  · subst some
    rw [List.nil_append, List.dropWhile_eq_nil_iff.mpr right]
    rfl
  · rw [bare.dropWhile_append_eq some, rdropWhile_append_of_all right, bare.rdropWhile_eq]

lemma trimmed_of_bare (bare : Bare p l) : trimmed p l = l := by
  have padded := trimmed_pad (a := []) (b := []) (by simp) (by simp) bare
  rwa [List.nil_append, List.append_nil] at padded

/-- Every list is a bare one with elements of the kind around it. -/
lemma exists_pad (p : A → Bool) (l : List A) :
    ∃ a b, (∀ x ∈ a, p x = true) ∧ (∀ x ∈ b, p x = true) ∧ Bare p (trimmed p l) ∧ l = a ++ trimmed p l ++ b := by
  refine ⟨l.takeWhile p, (l.dropWhile p).rtakeWhile p, ?_, ?_, ⟨?_, ?_⟩, ?_⟩
  · exact fun x mem => List.mem_takeWhile_imp mem
  · exact fun x mem => List.mem_rtakeWhile_imp mem
  · intro x first
    -- the list starts as it does before its end is trimmed
    have same : (l.dropWhile p).head? = some x := by
      obtain ⟨rest, split⟩ := List.rdropWhile_prefix p (l := l.dropWhile p)
      rw [← split, List.head?_append, show ((l.dropWhile p).rdropWhile p).head? = some x from first]
      rfl
    have notKind := List.head?_dropWhile_not p l
    rw [same] at notKind
    simpa using notKind
  · intro x last
    obtain ⟨some, rfl⟩ := List.mem_getLast?_eq_getLast last
    exact eq_false_of_ne_true (List.rdropWhile_last_not p (l.dropWhile p) some)
  · rw [List.append_assoc, trimmed, List.rdropWhile_append_rtakeWhile, List.takeWhile_append_dropWhile]

lemma bare_trimmed (p : A → Bool) (l : List A) : Bare p (trimmed p l) := by
  obtain ⟨_, _, _, _, bare, _⟩ := exists_pad p l
  exact bare

lemma trimmed_trimmed (p : A → Bool) (l : List A) : trimmed p (trimmed p l) = trimmed p l :=
  trimmed_of_bare (bare_trimmed p l)

lemma trimmed_isInfix (p : A → Bool) (l : List A) : trimmed p l <:+: l := by
  obtain ⟨a, b, _, _, _, whole⟩ := exists_pad p l
  exact ⟨a, b, whole.symm⟩

lemma trimmed_append_of_all (all : ∀ x ∈ b, p x = true) (l : List A) : trimmed p (l ++ b) = trimmed p l := by
  obtain ⟨left, right, hleft, hright, bare, whole⟩ := exists_pad p l
  have split : l ++ b = left ++ trimmed p l ++ (right ++ b) := by
    rw [← List.append_assoc, ← whole]
  rw [split]
  apply trimmed_pad hleft _ bare
  intro x mem
  rcases List.mem_append.mp mem with mem | mem
  · exact hright x mem
  · exact all x mem

lemma trimmed_reverse (p : A → Bool) (l : List A) : trimmed p l.reverse = (trimmed p l).reverse := by
  obtain ⟨left, right, hleft, hright, bare, whole⟩ := exists_pad p l
  have split : l.reverse = right.reverse ++ (trimmed p l).reverse ++ left.reverse := by
    conv_lhs => rw [whole]
    rw [List.reverse_append, List.reverse_append, List.append_assoc]
  rw [split]
  exact trimmed_pad (fun x mem => hright x (List.mem_reverse.mp mem))
    (fun x mem => hleft x (List.mem_reverse.mp mem)) bare.reverse

lemma trimmed_eq_nil_iff : trimmed p l = [] ↔ ∀ x ∈ l, p x = true := by
  constructor
  · intro nothing
    obtain ⟨a, b, left, right, _, whole⟩ := exists_pad p l
    rw [nothing, List.append_nil] at whole
    intro x mem
    rw [whole] at mem
    rcases List.mem_append.mp mem with mem | mem
    · exact left x mem
    · exact right x mem
  · intro all
    have padded := trimmed_pad (b := []) all (by simp) (Bare.nil (p := p))
    rwa [List.append_nil, List.append_nil] at padded

/-- What is bare and stands at the end still does when the list is trimmed. -/
lemma suffix_trimmed (bare : Bare p m) (some : m ≠ []) (suffix : m <:+ l) : m <:+ trimmed p l := by
  obtain ⟨front, rfl⟩ := suffix
  have whole : front ++ m = front.takeWhile p ++ (front.dropWhile p ++ m) ++ [] := by
    rw [List.append_nil, ← List.append_assoc, List.takeWhile_append_dropWhile]
  have bare' : Bare p (front.dropWhile p ++ m) := by
    constructor
    · intro x first
      cases rest : front.dropWhile p with
      | nil =>
        rw [rest, List.nil_append] at first
        exact bare.first x first
      | cons y rest' =>
        have notKind := List.head?_dropWhile_not p front
        rw [rest] at first notKind
        obtain rfl : y = x := Option.some.inj first
        simpa using notKind
    · intro x last
      rw [List.getLast?_append_of_ne_nil _ some] at last
      exact bare.last x last
  rw [whole, trimmed_pad (fun x mem => List.mem_takeWhile_imp mem) (by simp) bare']
  exact List.suffix_append _ _

/-- What is bare and stands at the start still does when the list is trimmed. -/
lemma prefix_trimmed (bare : Bare p m) (some : m ≠ []) (before : m <+: l) : m <+: trimmed p l := by
  have reversed := suffix_trimmed bare.reverse (List.reverse_ne_nil_iff.mpr some) (List.reverse_suffix.mpr before)
  rw [trimmed_reverse] at reversed
  exact List.reverse_suffix.mp reversed

/-- What is left of a list without a part at its start is shorter once it is trimmed. -/
lemma length_trimmed_lt_of_append {x : A} (mem : x ∈ a) (notKind : p x = false) (l : List A) :
    (trimmed p l).length < (trimmed p (a ++ l)).length := by
  obtain ⟨left, right, hleft, hright, bare, whole⟩ := exists_pad p l
  by_cases nothing : trimmed p l = []
  · rw [nothing, List.length_nil]
    apply List.length_pos_of_ne_nil
    intro empty
    have kind := trimmed_eq_nil_iff.mp empty x (List.mem_append_left l mem)
    rw [notKind] at kind
    cases kind
  · have ends : trimmed p (a ++ l) = trimmed p (a ++ left ++ trimmed p l) := by
      conv_lhs => rw [whole, ← List.append_assoc, ← List.append_assoc, trimmed_append_of_all hright]
    rw [ends]
    have suffix : trimmed p l <:+ trimmed p (a ++ left ++ trimmed p l) :=
      suffix_trimmed bare nothing (List.suffix_append _ _)
    apply Nat.lt_of_le_of_ne suffix.length_le
    intro same
    -- the element would have to be trimmed away with what is before it
    have noMore := suffix.eq_of_length same
    obtain ⟨left', right', hleft', hright', bare', whole'⟩ := exists_pad p (a ++ left ++ trimmed p l)
    rw [← noMore] at whole'
    have noRight : right' = [] := by
      rcases List.eq_nil_or_concat right' with none | ⟨front, y, rfl⟩
      · exact none
      · have lastEq := congrArg List.getLast? whole'
        rw [List.getLast?_append_of_ne_nil _ nothing, List.concat_eq_append, ← List.append_assoc,
          List.getLast?_concat] at lastEq
        have kind := hright' y (by simp)
        rw [bare.last y lastEq] at kind
        cases kind
    rw [noRight, List.append_nil] at whole'
    have kind := hleft' x (by
      rw [← List.append_cancel_right whole']
      exact List.mem_append_left left mem)
    rw [notKind] at kind
    cases kind

lemma length_trimmed_lt_of_append_right {x : A} (mem : x ∈ b) (notKind : p x = false) (l : List A) :
    (trimmed p l).length < (trimmed p (l ++ b)).length := by
  have reversed := length_trimmed_lt_of_append (List.mem_reverse.mpr mem) notKind l.reverse
  rwa [← List.reverse_append, trimmed_reverse, trimmed_reverse, List.length_reverse, List.length_reverse] at reversed

/-- A suffix is not longer when both are trimmed. -/
lemma length_trimmed_le_of_suffix (suffix : m <:+ l) : (trimmed p m).length ≤ (trimmed p l).length := by
  obtain ⟨front, rfl⟩ := suffix
  by_cases all : ∀ x ∈ front, p x = true
  · have reversed := trimmed_append_of_all (b := front.reverse) (fun x mem => all x (List.mem_reverse.mp mem)) m.reverse
    rw [← List.reverse_append, trimmed_reverse, trimmed_reverse] at reversed
    rw [List.reverse_injective reversed]
  · push Not at all
    obtain ⟨x, mem, notKind⟩ := all
    exact Nat.le_of_lt (length_trimmed_lt_of_append mem (eq_false_of_ne_true notKind) m)

lemma length_trimmed_le_of_isPrefix (before : m <+: l) : (trimmed p m).length ≤ (trimmed p l).length := by
  have reversed := length_trimmed_le_of_suffix (p := p) (List.reverse_suffix.mpr before)
  rwa [trimmed_reverse, trimmed_reverse, List.length_reverse, List.length_reverse] at reversed

/-- A list that ends bare loses elements at its start only. -/
lemma trimmed_suffix (last : ∀ x ∈ l.getLast?, p x = false) : trimmed p l <:+ l := by
  obtain ⟨left, right, hleft, hright, bare, whole⟩ := exists_pad p l
  rcases List.eq_nil_or_concat right with none | ⟨front, y, rfl⟩
  · rw [none, List.append_nil] at whole
    exact ⟨left, whole.symm⟩
  · have kind := hright y (by simp)
    rw [last y (by rw [whole, List.concat_eq_append, ← List.append_assoc, List.getLast?_concat]; rfl)] at kind
    cases kind

end ArchipelagoXL.Trimming
