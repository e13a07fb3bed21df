import Mathlib.Data.List.Basic
import Mathlib.Data.List.Count
import Mathlib.Tactic.Common
import ArchipelagoXL.Tools.Rules

/-!
# What predicates say

A predicate is read as a statement about its checks: all of them, some of them, enough of them, or not. Where
each check can be evaluated, evaluating the predicate gives what it says (`evaluatePredicate_eq`). A check under
an even number of negations can only help a predicate to hold, one under an odd number can only hinder it
(`denote_leads`).
-/

namespace ArchipelagoXL.Tools

/-- Induction on a predicate, with the hypothesis for each member of a list. -/
@[elab_as_elim]
lemma Predicate.ind {motive : Predicate → Prop} (check : ∀ path check, motive (.check path check))
    (and : ∀ ps, (∀ p ∈ ps, motive p) → motive (.and ps)) (or : ∀ ps, (∀ p ∈ ps, motive p) → motive (.or ps))
    (not : ∀ p, motive p → motive (.not p))
    (atLeast : ∀ count ps, (∀ p ∈ ps, motive p) → motive (.atLeast count ps)) : ∀ p, motive p
  | .check path c => check path c
  | .and ps => and ps fun p _ => Predicate.ind check and or not atLeast p
  | .or ps => or ps fun p _ => Predicate.ind check and or not atLeast p
  | .not p => not p (Predicate.ind check and or not atLeast p)
  | .atLeast count ps => atLeast count ps fun p _ => Predicate.ind check and or not atLeast p

/-! ## Meaning -/

mutual

/-- What a predicate says where `val` says which checks hold. -/
def Predicate.denote (val : String → RuleCheck → Bool) : Predicate → Bool
  | .check path check => val path check
  | .and ps => (denoteEach val ps).all id
  | .or ps => (denoteEach val ps).any id
  | .not p => !p.denote val
  | .atLeast count ps => decide (max count 1 ≤ (denoteEach val ps).count true)

def denoteEach (val : String → RuleCheck → Bool) : List Predicate → List Bool
  | [] => []
  | p :: ps => p.denote val :: denoteEach val ps

end

/-- A check that a predicate makes, under an even or an odd number of negations. -/
structure Atom where
  negated : Bool
  path : String
  check : RuleCheck
deriving DecidableEq

mutual

/-- The checks of a predicate that is itself negated or not. -/
def Predicate.atoms (negated : Bool) : Predicate → List Atom
  | .check path check => [⟨negated, path, check⟩]
  | .and ps => atomsEach negated ps
  | .or ps => atomsEach negated ps
  | .not p => p.atoms (!negated)
  | .atLeast _ ps => atomsEach negated ps

def atomsEach (negated : Bool) : List Predicate → List Atom
  | [] => []
  | p :: ps => p.atoms negated ++ atomsEach negated ps

end

def Rule.atoms (rule : Rule) : List Atom :=
  (rule.when.map fun condition => condition.atoms false).getD [] ++ rule.then_.atoms false

section
variable {val val' : String → RuleCheck → Bool} {re : RegexLib} {w : Value} {negated : Bool}

lemma denoteEach_eq (ps : List Predicate) : denoteEach val ps = ps.map (Predicate.denote val) := by
  induction ps with
  | nil => rfl
  | cons p ps ih => rw [denoteEach, ih, List.map_cons]

lemma mem_atomsEach {ps : List Predicate} {a : Atom} :
    a ∈ atomsEach negated ps ↔ ∃ p ∈ ps, a ∈ p.atoms negated := by
  induction ps with
  | nil => simp [atomsEach]
  | cons p ps ih => rw [atomsEach, List.mem_append, ih, List.exists_mem_cons_iff]

/-! ## Evaluation -/

/-- Each check of the predicate can be evaluated, to what `val` says. -/
def Evaluates (re : RegexLib) (w : Value) (val : String → RuleCheck → Bool) (atoms : List Atom) : Prop :=
  ∀ a ∈ atoms, evaluateAt re a.path a.check w = .ok (val a.path a.check)

lemma allHold_eq {ps : List Predicate} (each : ∀ p ∈ ps, evaluatePredicate re w p = .ok (p.denote val)) :
    allHold re w ps = .ok ((denoteEach val ps).all id) := by
  induction ps with
  | nil => rfl
  | cons p ps ih =>
    have rest := ih fun q mem => each q (List.mem_cons_of_mem _ mem)
    rw [allHold, each p List.mem_cons_self, rest, denoteEach, List.all_cons]
    cases p.denote val with
    | true => rfl
    | false => rfl

lemma someHolds_eq {ps : List Predicate} (each : ∀ p ∈ ps, evaluatePredicate re w p = .ok (p.denote val)) :
    someHolds re w ps = .ok ((denoteEach val ps).any id) := by
  induction ps with
  | nil => rfl
  | cons p ps ih =>
    have rest := ih fun q mem => each q (List.mem_cons_of_mem _ mem)
    rw [someHolds, each p List.mem_cons_self, rest, denoteEach, List.any_cons]
    cases p.denote val with
    | true => rfl
    | false => rfl

/-- The loop stops at the member that is the last one needed. -/
lemma enoughHold_eq {ps : List Predicate} (each : ∀ p ∈ ps, evaluatePredicate re w p = .ok (p.denote val))
    {count matched : ℕ} (less : matched < max count 1) :
    enoughHold re w count matched ps = .ok (decide (max count 1 ≤ matched + (denoteEach val ps).count true)) := by
  induction ps generalizing matched with
  | nil =>
    rw [enoughHold, denoteEach, List.count_nil, Nat.add_zero, decide_eq_false (Nat.not_le.2 less)]
  | cons p ps ih =>
    have rest := fun q mem => each q (List.mem_cons_of_mem p mem)
    rw [enoughHold, each p List.mem_cons_self, denoteEach]
    cases p.denote val with
    | false => exact ih rest less
    | true =>
      rw [List.count_cons_self]
      by_cases last : count ≤ matched + 1
      · have reached : max count 1 ≤ matched + ((denoteEach val ps).count true + 1) := by omega
        rw [decide_eq_true reached]
        exact if_pos last
      · have more : matched + 1 < max count 1 := by omega
        have later := ih rest more
        rw [Nat.add_right_comm, Nat.add_assoc] at later
        exact (if_neg last).trans later

/-- Evaluating a predicate gives what it says of its checks. -/
theorem evaluatePredicate_eq {p : Predicate} (evaluates : Evaluates re w val (p.atoms negated)) :
    evaluatePredicate re w p = .ok (p.denote val) := by
  induction p using Predicate.ind generalizing negated with
  | check path check =>
    rw [evaluatePredicate, Predicate.denote]
    exact evaluates ⟨negated, path, check⟩ (List.mem_singleton_self _)
  | and ps ih =>
    rw [evaluatePredicate, Predicate.denote]
    exact allHold_eq fun p mem => ih p mem fun a inP => evaluates a (mem_atomsEach.2 ⟨p, mem, inP⟩)
  | or ps ih =>
    rw [evaluatePredicate, Predicate.denote]
    exact someHolds_eq fun p mem => ih p mem fun a inP => evaluates a (mem_atomsEach.2 ⟨p, mem, inP⟩)
  | not p ih =>
    rw [evaluatePredicate, Predicate.denote, ih evaluates]
    rfl
  | atLeast count ps ih =>
    have each := fun p mem => ih p mem fun a inP => evaluates a (mem_atomsEach.2 ⟨p, mem, inP⟩)
    rw [evaluatePredicate, Predicate.denote, enoughHold_eq each (by omega), Nat.zero_add]

/-! ## Negations -/

/-- The first leads to the second, or the other way round under a negation. -/
def Leads : Bool → Bool → Bool → Prop
  | false, x, y => x = true → y = true
  | true, x, y => y = true → x = true

lemma Leads.refl (negated x : Bool) : Leads negated x x := by
  cases negated with
  | false => exact id
  | true => exact id

lemma Leads.not {x y : Bool} (leads : Leads (!negated) x y) : Leads negated (!x) (!y) := by
  cases negated with
  | false =>
    intro notX
    rw [Bool.not_eq_true'] at notX ⊢
    exact Bool.eq_false_iff.2 fun isY => Bool.eq_false_iff.1 notX (leads isY)
  | true =>
    intro notY
    rw [Bool.not_eq_true'] at notY ⊢
    exact Bool.eq_false_iff.2 fun isX => Bool.eq_false_iff.1 notY (leads isX)

lemma Leads.all {l : List Predicate} {f g : Predicate → Bool} (each : ∀ p ∈ l, Leads negated (f p) (g p)) :
    Leads negated ((l.map f).all id) ((l.map g).all id) := by
  rw [List.all_map, List.all_map]
  cases negated with
  | false =>
    intro all
    exact List.all_eq_true.2 fun p mem => each p mem (List.all_eq_true.1 all p mem)
  | true =>
    intro all
    exact List.all_eq_true.2 fun p mem => each p mem (List.all_eq_true.1 all p mem)

lemma Leads.any {l : List Predicate} {f g : Predicate → Bool} (each : ∀ p ∈ l, Leads negated (f p) (g p)) :
    Leads negated ((l.map f).any id) ((l.map g).any id) := by
  rw [List.any_map, List.any_map]
  cases negated with
  | false =>
    intro some
    obtain ⟨p, mem, holds⟩ := List.any_eq_true.1 some
    exact List.any_eq_true.2 ⟨p, mem, each p mem holds⟩
  | true =>
    intro some
    obtain ⟨p, mem, holds⟩ := List.any_eq_true.1 some
    exact List.any_eq_true.2 ⟨p, mem, each p mem holds⟩

lemma Leads.enough {l : List Predicate} {f g : Predicate → Bool} (each : ∀ p ∈ l, Leads negated (f p) (g p))
    (n : ℕ) : Leads negated (decide (n ≤ (l.map f).count true)) (decide (n ≤ (l.map g).count true)) := by
  simp only [List.count_eq_countP, List.countP_map]
  cases negated with
  | false =>
    intro enough
    have more := List.countP_mono_left (p := (· == true) ∘ f) (q := (· == true) ∘ g) fun p mem holds =>
      beq_iff_eq.2 (each p mem (beq_iff_eq.1 holds))
    exact decide_eq_true ((of_decide_eq_true enough).trans more)
  | true =>
    intro enough
    have more := List.countP_mono_left (p := (· == true) ∘ g) (q := (· == true) ∘ f) fun p mem holds =>
      beq_iff_eq.2 (each p mem (beq_iff_eq.1 holds))
    exact decide_eq_true ((of_decide_eq_true enough).trans more)

lemma validateAll_ok {ps : List Predicate} : validateAll re ps = .ok () ↔ ∀ p ∈ ps, p.validate re = .ok () := by
  induction ps with
  | nil => simp [validateAll]
  | cons p ps ih =>
    rw [validateAll, List.forall_mem_cons]
    cases p.validate re with
    | ok u => exact ih.trans (and_iff_right rfl).symm
    | error e => exact iff_of_false (by simp) (by simp)

/-- The predicates of an accepted rule are accepted. -/
lemma Rule.validate_parts {rule : Rule} (accepted : rule.validate re = .ok ()) :
    (∀ p, rule.when = some p → p.validate re = .ok ()) ∧ rule.then_.validate re = .ok () := by
  rw [Rule.validate] at accepted
  cases isWhen : rule.when with
  | none =>
    rw [isWhen] at accepted
    exact ⟨fun p absent => (Option.some_ne_none p absent.symm).elim, accepted⟩
  | some condition =>
    rw [isWhen] at accepted
    dsimp only at accepted
    split at accepted
    case h_1 isValid =>
      refine ⟨fun p same => ?_, accepted⟩
      cases same
      exact isValid
    · cases accepted

end

end ArchipelagoXL.Tools
