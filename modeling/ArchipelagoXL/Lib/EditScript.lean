import Mathlib.Data.List.Basic
import Mathlib.Tactic.Common

/-!
# Edit scripts

The changes that turn one list into another: what is kept and what is deleted make up the old list, what is kept and
what is inserted the new one. Programs that compare texts leave the choice of the script to a library, so a `Differ` is
any way to choose one. A shortest script is such a choice (`Differ.shortest`).
-/

namespace ArchipelagoXL.EditScript

variable {A : Type}

inductive ChangeTag where
  | equal
  | delete
  | insert
deriving DecidableEq

structure Change (A : Type) where
  tag : ChangeTag
  value : A
deriving DecidableEq

/-- What a script is about on the old side. -/
def oldSide (changes : List (Change A)) : List A := (changes.filter fun change => change.tag ≠ .insert).map Change.value

/-- What a script is about on the new side. -/
def newSide (changes : List (Change A)) : List A := (changes.filter fun change => change.tag ≠ .delete).map Change.value

section
variable (a : A) (changes : List (Change A))

@[simp] lemma oldSide_nil : oldSide ([] : List (Change A)) = [] := rfl
@[simp] lemma newSide_nil : newSide ([] : List (Change A)) = [] := rfl
@[simp] lemma oldSide_equal : oldSide (⟨.equal, a⟩ :: changes) = a :: oldSide changes := rfl
@[simp] lemma newSide_equal : newSide (⟨.equal, a⟩ :: changes) = a :: newSide changes := rfl
@[simp] lemma oldSide_delete : oldSide (⟨.delete, a⟩ :: changes) = a :: oldSide changes := rfl
@[simp] lemma newSide_delete : newSide (⟨.delete, a⟩ :: changes) = newSide changes := rfl
@[simp] lemma oldSide_insert : oldSide (⟨.insert, a⟩ :: changes) = oldSide changes := rfl
@[simp] lemma newSide_insert : newSide (⟨.insert, a⟩ :: changes) = a :: newSide changes := rfl

end

/-- A way to choose a script from any list to any other one. -/
structure Differ (A : Type) where
  changes : List A → List A → List (Change A)
  oldSide_changes (old new : List A) : oldSide (changes old new) = old
  newSide_changes (old new : List A) : newSide (changes old new) = new

/-! ## A shortest script -/

/-- The shorter one of two scripts. -/
def shorter (first second : List (Change A)) : List (Change A) :=
  if first.length ≤ second.length then first else second

lemma shorter_cases (p : List (Change A) → Prop) {first second : List (Change A)} (one : p first) (other : p second) :
    p (shorter first second) := by
  rw [shorter]
  split
  · exact one
  · exact other

section
variable [DecidableEq A]

/-- A script for an old list with one more element, from the scripts for the old list. -/
def addOld (a : A) (below : List A → List (Change A)) : List A → List (Change A)
  | [] => ⟨.delete, a⟩ :: below []
  | b :: new =>
    if a = b then ⟨.equal, a⟩ :: below new
    else shorter (⟨.delete, a⟩ :: below (b :: new)) (⟨.insert, b⟩ :: addOld a below new)

def shortest : List A → List A → List (Change A)
  | [], new => new.map (⟨.insert, ·⟩)
  | a :: old, new => addOld a (shortest old) new

lemma sides_shortest (old new : List A) : oldSide (shortest old new) = old ∧ newSide (shortest old new) = new := by
  induction old generalizing new with
  | nil =>
    rw [shortest]
    induction new with
    | nil => exact ⟨rfl, rfl⟩
    | cons b new ih => exact ⟨ih.1, congrArg (b :: ·) ih.2⟩
  | cons a old ih =>
    rw [shortest]
    induction new with
    | nil =>
      obtain ⟨oldIh, newIh⟩ := ih []
      exact ⟨congrArg (a :: ·) oldIh, newIh⟩
    | cons b new ihNew =>
      rw [addOld]
      split
      case isTrue same =>
        obtain ⟨oldIh, newIh⟩ := ih new
        rw [← same]
        exact ⟨congrArg (a :: ·) oldIh, congrArg (a :: ·) newIh⟩
      case isFalse =>
        apply shorter_cases fun changes => oldSide changes = a :: old ∧ newSide changes = b :: new
        · obtain ⟨oldIh, newIh⟩ := ih (b :: new)
          exact ⟨congrArg (a :: ·) oldIh, newIh⟩
        · exact ⟨ihNew.1, congrArg (b :: ·) ihNew.2⟩

def Differ.shortest : Differ A where
  changes := EditScript.shortest
  oldSide_changes old new := (sides_shortest old new).1
  newSide_changes old new := (sides_shortest old new).2

end

end ArchipelagoXL.EditScript
