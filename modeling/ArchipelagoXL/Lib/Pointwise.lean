import Mathlib.Data.List.Forall2
import Mathlib.Tactic.Common

/-!
# Lists related one by one

A loop none of whose turns fails gives a list that goes along with the one it was given (`mapM_eq_some_iff`). What is
in one of two lists that go along has a counterpart in the other.
-/

namespace ArchipelagoXL.Pointwise

variable {A B C : Type} {R : A → B → Prop} {l : List A} {l' : List B}

lemma exists_left (related : List.Forall₂ R l l') {b : B} (mem : b ∈ l') : ∃ a ∈ l, R a b := by
  induction related with
  | nil => cases mem
  | cons here _ ih =>
    rcases List.mem_cons.mp mem with rfl | mem
    · exact ⟨_, List.mem_cons_self, here⟩
    · obtain ⟨a, mem, rest⟩ := ih mem
      exact ⟨a, List.mem_cons_of_mem _ mem, rest⟩

lemma exists_right (related : List.Forall₂ R l l') {a : A} (mem : a ∈ l) : ∃ b ∈ l', R a b :=
  exists_left related.flip mem

/-- Related elements with the same image give the same list of images. -/
lemma map_eq {f : A → C} {g : B → C} (same : ∀ a b, R a b → g b = f a) (related : List.Forall₂ R l l') :
    l'.map g = l.map f := by
  induction related with
  | nil => rfl
  | cons here _ ih => rw [List.map_cons, List.map_cons, same _ _ here, ih]

/-- A loop ends if no turn fails, with what the turns gave. -/
lemma mapM_eq_some_iff {f : A → Option B} : l.mapM f = some l' ↔ List.Forall₂ (fun a b => f a = some b) l l' := by
  induction l generalizing l' with
  | nil =>
    rw [List.mapM_nil, List.forall₂_nil_left_iff]
    exact ⟨fun eq => (Option.some.inj eq).symm, fun eq => congrArg some eq.symm⟩
  | cons a l ih =>
    rw [List.mapM_cons]
    constructor
    · intro ends
      obtain ⟨b, here, rest⟩ := Option.bind_eq_some_iff.mp ends
      obtain ⟨later, there, eq⟩ := Option.bind_eq_some_iff.mp rest
      cases Option.some.inj eq
      exact .cons here (ih.mp there)
    · rintro (_ | ⟨here, there⟩)
      rw [here, ih.mpr there]
      rfl

/-- Turns that all give something related. -/
lemma exists_mapM {f : A → Option B} (each : ∀ a ∈ l, ∃ b, f a = some b ∧ R a b) :
    ∃ l', l.mapM f = some l' ∧ List.Forall₂ R l l' := by
  induction l with
  | nil => exact ⟨[], rfl, .nil⟩
  | cons a l ih =>
    obtain ⟨b, here, related⟩ := each a List.mem_cons_self
    obtain ⟨l', rest, relatedRest⟩ := ih fun a mem => each a (List.mem_cons_of_mem _ mem)
    refine ⟨b :: l', ?_, .cons related relatedRest⟩
    rw [List.mapM_cons, here, rest]
    rfl

end ArchipelagoXL.Pointwise
