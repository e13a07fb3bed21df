import Mathlib.Data.List.Induction
import Mathlib.Logic.Function.Basic
import Mathlib.Tactic.Common

/-!
# Interleaved threads

A machine of threads over one shared state. Each thread is at a program point `π`, and one step of
thread `i` is given by a partial function `step i w p x`: from the shared state `w` and the thread's
own point `p`, with the input `x` standing for everything the environment decides (clock readings,
failures, scheduling inside the operation). Nothing bounds the number of threads.

`Run C s₀ tr s` is a run from `s₀` to `s` whose steps all meet the side condition `C` in the state
they are taken from; `tr` records the steps, the newest first. Invariants over runs are proved with
`Run.invariant`, and `exec` replays a concrete schedule, so that a run can be exhibited by
evaluation (`exec_run`, `exec_run_any`).
-/

namespace Interleave

variable {σ π ι : Type}

/-- The shared state and the program point of every thread. -/
structure Conf (σ π : Type) where
  shared : σ
  pc : ℕ → π

/-- One step as the trace records it. -/
structure Event (π ι : Type) where
  tid : ℕ
  before : π
  input : ι
  after : π
deriving DecidableEq

/-- Thread `i` moves to `p` and leaves `w` behind. -/
def Conf.move (s : Conf σ π) (i : ℕ) (w : σ) (p : π) : Conf σ π :=
  ⟨w, Function.update s.pc i p⟩

@[simp] lemma Conf.move_shared (s : Conf σ π) (i : ℕ) (w : σ) (p : π) :
    (s.move i w p).shared = w := rfl

@[simp] lemma Conf.move_pc_self (s : Conf σ π) (i : ℕ) (w : σ) (p : π) :
    (s.move i w p).pc i = p := by
  simp [Conf.move]

lemma Conf.move_pc_of_ne {s : Conf σ π} {i k : ℕ} {w : σ} {p : π} (ne : k ≠ i) :
    (s.move i w p).pc k = s.pc k := by
  simp [Conf.move, ne]

/-- After a step a thread is where it moved to, or where it was. -/
lemma Conf.move_pc (s : Conf σ π) (i : ℕ) (w : σ) (p : π) (k : ℕ) :
    (k = i ∧ (s.move i w p).pc k = p) ∨ (k ≠ i ∧ (s.move i w p).pc k = s.pc k) := by
  by_cases e : k = i
  · subst e
    exact .inl ⟨rfl, Conf.move_pc_self s k w p⟩
  · exact .inr ⟨e, Conf.move_pc_of_ne e⟩

/-- A machine: what one step of a thread does, if it can take one. -/
abbrev Machine (σ π ι : Type) := ℕ → σ → π → ι → Option (σ × π)

/-- Side condition on a step: the trace so far, the state, the thread and its input. -/
abbrev Cond (σ π ι : Type) := List (Event π ι) → Conf σ π → ℕ → ι → Prop

/-- The runs of `M` from `s₀` whose steps all meet `C`. -/
inductive Run (M : Machine σ π ι) (C : Cond σ π ι) (s₀ : Conf σ π) :
    List (Event π ι) → Conf σ π → Prop where
  | nil : Run M C s₀ [] s₀
  | cons {tr s i x w p} :
    Run M C s₀ tr s →
    C tr s i x →
    M i s.shared (s.pc i) x = some (w, p) →
    Run M C s₀ (⟨i, s.pc i, x, p⟩ :: tr) (s.move i w p)

/-- The condition every step meets. -/
def Cond.any : Cond σ π ι := fun _ _ _ _ => True

/-- What holds at the start and is kept by every step holds along every run. -/
theorem Run.invariant {M : Machine σ π ι} {C : Cond σ π ι} {s₀ : Conf σ π}
    {I : List (Event π ι) → Conf σ π → Prop} (init : I [] s₀)
    (keep : ∀ {tr s i x w p}, I tr s → C tr s i x → M i s.shared (s.pc i) x = some (w, p) →
      I (⟨i, s.pc i, x, p⟩ :: tr) (s.move i w p))
    {tr s} (run : Run M C s₀ tr s) : I tr s := by
  induction run with
  | nil => exact init
  | cons _ c st ih => exact keep ih c st

/-- A side condition on the state and the point that a step is taken from. -/
def Cond.here (c : σ → π → ι → Prop) : Cond σ π ι := fun _ s i x => c s.shared (s.pc i) x

/-- The steps that lead to states of a kind. -/
def Cond.leadsTo (M : Machine σ π ι) (Q : σ → Prop) : Cond σ π ι :=
  fun _ s i x => ∀ w p, M i s.shared (s.pc i) x = some (w, p) → Q w

/-- An invariant `J` of the shared state with what each thread knows of it (`P`): a step under the condition
keeps `J` and what its own thread knows, and leaves alone what the others know. -/
theorem Run.everyThreadUnder {M : Machine σ π ι} {C : Cond σ π ι} {c : σ → π → ι → Prop} {s₀ : Conf σ π}
    {J : σ → Prop} {P : σ → π → Prop} (init : J s₀.shared) (start : ∀ i, P s₀.shared (s₀.pc i))
    (here : ∀ {tr s i x}, C tr s i x → c s.shared (s.pc i) x)
    (keep : ∀ {i w p x w' p'}, J w → P w p → c w p x → M i w p x = some (w', p') →
      J w' ∧ P w' p' ∧ ∀ q, P w q → P w' q)
    {tr s} (run : Run M C s₀ tr s) : J s.shared ∧ ∀ i, P s.shared (s.pc i) := by
  refine run.invariant (I := fun _ s => J s.shared ∧ ∀ i, P s.shared (s.pc i)) ⟨init, start⟩ ?_
  rintro tr s i x w p ⟨kept, knows⟩ cond st
  obtain ⟨kept', own, others⟩ := keep kept (knows i) (here cond) st
  refine ⟨kept', fun k => ?_⟩
  rcases s.move_pc i w p k with ⟨-, e⟩ | ⟨-, e⟩
  · rw [e]
    exact own
  · rw [e]
    exact others _ (knows k)

/-- The same where every step keeps them. -/
theorem Run.everyThread {M : Machine σ π ι} {C : Cond σ π ι} {s₀ : Conf σ π} {J : σ → Prop}
    {P : σ → π → Prop} (init : J s₀.shared) (start : ∀ i, P s₀.shared (s₀.pc i))
    (keep : ∀ {i w p x w' p'}, J w → P w p → M i w p x = some (w', p') →
      J w' ∧ P w' p' ∧ ∀ q, P w q → P w' q)
    {tr s} (run : Run M C s₀ tr s) : J s.shared ∧ ∀ i, P s.shared (s.pc i) :=
  run.everyThreadUnder (c := fun _ _ _ => True) init start (fun _ => trivial) fun kept knows _ => keep kept knows

/-- What an event brings about and every step keeps holds from that event on. -/
theorem Run.after {M : Machine σ π ι} {C : Cond σ π ι} {s₀ : Conf σ π} {E : Event π ι → Prop}
    {Q : Conf σ π → Prop}
    (begin_ : ∀ {tr s i x w p}, Run M C s₀ tr s → E ⟨i, s.pc i, x, p⟩ → C tr s i x →
      M i s.shared (s.pc i) x = some (w, p) → Q (s.move i w p))
    (keep : ∀ {tr s i x w p}, Run M C s₀ tr s → Q s → C tr s i x →
      M i s.shared (s.pc i) x = some (w, p) → Q (s.move i w p))
    {tr s} (run : Run M C s₀ tr s) {ev : Event π ι} (mem : ev ∈ tr) (h : E ev) : Q s := by
  induction run with
  | nil => cases mem
  | cons run c st ih =>
    rcases List.mem_cons.1 mem with rfl | mem
    · exact begin_ run h c st
    · exact keep run (ih mem) c st

/-- Something held of the shared state at some time of a run. -/
def Past (M : Machine σ π ι) (C : Cond σ π ι) (s₀ : Conf σ π) (tr : List (Event π ι)) (Q : σ → Prop) : Prop :=
  ∃ tr' s', Run M C s₀ tr' s' ∧ tr' <:+ tr ∧ Q s'.shared

lemma Run.past {M : Machine σ π ι} {C : Cond σ π ι} {s₀ tr s} {Q : σ → Prop} (run : Run M C s₀ tr s)
    (q : Q s.shared) : Past M C s₀ tr Q :=
  ⟨tr, s, run, List.suffix_rfl, q⟩

lemma Past.later {M : Machine σ π ι} {C : Cond σ π ι} {s₀ tr} {Q : σ → Prop} (past : Past M C s₀ tr Q)
    (ev : Event π ι) : Past M C s₀ (ev :: tr) Q := by
  obtain ⟨tr', s', run, before, q⟩ := past
  exact ⟨tr', s', run, before.trans (List.suffix_cons ev tr), q⟩

/-- A run under a condition is a run under any weaker one. -/
lemma Run.mono {M : Machine σ π ι} {C D : Cond σ π ι} {s₀ tr s}
    (le : ∀ {tr s i x}, C tr s i x → D tr s i x) (run : Run M C s₀ tr s) : Run M D s₀ tr s := by
  induction run with
  | nil => exact .nil
  | cons _ c st ih => exact .cons ih (le c) st

/-- Where a local condition says of each step whether it keeps `Q`, the runs under it are those that keep
`Q`; `K` is what every run knows of its state. -/
theorem Run.keeps_iff {M : Machine σ π ι} {c : σ → π → ι → Prop} {s₀ : Conf σ π} {Q : σ → Prop}
    {K : Conf σ π → Prop} (init : Q s₀.shared) (every : ∀ {tr s}, Run M Cond.any s₀ tr s → K s)
    (step : ∀ {s i x w p}, K s → Q s.shared → M i s.shared (s.pc i) x = some (w, p) →
      (c s.shared (s.pc i) x ↔ Q w))
    {tr s} : (Run M (Cond.here c) s₀ tr s → Q s.shared) ∧
      (Run M (Cond.leadsTo M Q) s₀ tr s → Run M (Cond.here c) s₀ tr s) := by
  constructor
  · intro run
    induction run with
    | nil => exact init
    | cons run cond st ih => exact (step (every (run.mono fun _ => trivial)) ih st).mp cond
  · intro run
    have both : Q s.shared ∧ Run M (Cond.here c) s₀ tr s := by
      induction run with
      | nil => exact ⟨init, .nil⟩
      | cons run cond st ih =>
        refine ⟨cond _ _ st, .cons ih.2 ?_ st⟩
        exact (step (every (run.mono fun _ => trivial)) ih.1 st).mpr (cond _ _ st)
    exact both.2

/-- Thread `i`, running alone with inputs that `C` allows, can always go on until `Q` holds, and gets
there after finitely many steps. -/
inductive Inevitable (M : Machine σ π ι) (C : Conf σ π → ι → Prop) (i : ℕ) (Q : Conf σ π → Prop) :
    Conf σ π → Prop where
  | now {s} : Q s → Inevitable M C i Q s
  | later {s x₀ r₀} :
    C s x₀ →
    M i s.shared (s.pc i) x₀ = some r₀ →
    (∀ {x w p}, C s x → M i s.shared (s.pc i) x = some (w, p) → Inevitable M C i Q (s.move i w p)) →
    Inevitable M C i Q s

/-- A thread whose steps keep `I` and lower a measure until `Q` holds gets to `Q`. -/
theorem Inevitable.of_measure {M : Machine σ π ι} {C : Conf σ π → ι → Prop} {i : ℕ}
    {Q I : Conf σ π → Prop} (f : Conf σ π → ℕ)
    (can : ∀ {s}, I s → Q s ∨ ∃ x r, C s x ∧ M i s.shared (s.pc i) x = some r)
    (keep : ∀ {s x w p}, I s → C s x → M i s.shared (s.pc i) x = some (w, p) →
      I (s.move i w p) ∧ f (s.move i w p) < f s)
    {s : Conf σ π} (h : I s) : Inevitable M C i Q s := by
  induction m : f s using Nat.strongRecOn generalizing s with
  | _ m ih =>
    subst m
    rcases can h with q | ⟨x, r, c, st⟩
    · exact .now q
    · refine .later c st ?_
      intro x' w p c' st'
      obtain ⟨h', lt⟩ := keep h c' st'
      exact ih _ lt h' rfl

/-! ## Replaying a schedule -/

/-- Replay of a schedule, the oldest step first. -/
def exec (M : Machine σ π ι) : Conf σ π → List (Event π ι) → List (ℕ × ι) →
    Option (List (Event π ι) × Conf σ π)
  | s, tr, [] => some (tr, s)
  | s, tr, (i, x) :: l =>
    match M i s.shared (s.pc i) x with
    | none => none
    | some (w, p) => exec M (s.move i w p) (⟨i, s.pc i, x, p⟩ :: tr) l

/-- The trace of a schedule. -/
def traceOf (M : Machine σ π ι) (s : Conf σ π) (l : List (ℕ × ι)) : List (Event π ι) :=
  match exec M s [] l with
  | none => []
  | some r => r.1

/-- The state a schedule leads to. -/
def finalOf (M : Machine σ π ι) (s : Conf σ π) (l : List (ℕ × ι)) : Conf σ π :=
  match exec M s [] l with
  | none => s
  | some r => r.2

lemma exec_append (M : Machine σ π ι) (l l' : List (ℕ × ι)) (s : Conf σ π) (tr : List (Event π ι)) :
    exec M s tr (l ++ l') = (exec M s tr l).bind fun r => exec M r.2 r.1 l' := by
  induction l generalizing s tr with
  | nil => rfl
  | cons a l ih =>
    obtain ⟨i, x⟩ := a
    rw [List.cons_append, exec, exec]
    split
    · rfl
    · exact ih _ _

/-- A schedule that replays, each of its steps meeting the condition, gives a run. -/
theorem exec_run {M : Machine σ π ι} {C : Cond σ π ι} {s₀ l} (ok : (exec M s₀ [] l).isSome = true)
    (me : ∀ m i x, l[m]? = some (i, x) →
      C (traceOf M s₀ (l.take m)) (finalOf M s₀ (l.take m)) i x) :
    Run M C s₀ (traceOf M s₀ l) (finalOf M s₀ l) := by
  induction l using List.reverseRecOn with
  | nil => exact .nil
  | append_singleton l a ih =>
    obtain ⟨i, x⟩ := a
    rw [exec_append] at ok
    obtain ⟨r, ex⟩ := Option.isSome_iff_exists.1 ok
    obtain ⟨⟨tr, s⟩, el, ea⟩ := Option.bind_eq_some_iff.1 ex
    have run := ih (by simp [el]) fun m i x h => by
      have lt : m < l.length := (List.getElem?_eq_some_iff.1 h).1
      have := me m i x (by rwa [List.getElem?_append_left lt])
      rwa [List.take_append_of_le_length (Nat.le_of_lt lt)] at this
    have c := me l.length i x (by simp)
    rw [List.take_left' rfl] at c
    have tl : traceOf M s₀ l = tr := by simp [traceOf, el]
    have fl : finalOf M s₀ l = s := by simp [finalOf, el]
    rw [tl, fl] at c run
    simp only [exec] at ea
    split at ea
    · cases ea
    · rename_i w p st
      cases ea
      simp only [traceOf, finalOf, exec_append, el, Option.bind_some, exec, st]
      exact .cons run c st

/-- A schedule that replays gives a run. -/
theorem exec_run_any {M : Machine σ π ι} {s₀ l} (ok : (exec M s₀ [] l).isSome = true) :
    Run M Cond.any s₀ (traceOf M s₀ l) (finalOf M s₀ l) :=
  exec_run ok fun _ _ _ _ => trivial

/-- Every step of a schedule meets a computable condition. -/
def checked (M : Machine σ π ι) (c : Conf σ π → ℕ → ι → Bool) : Conf σ π → List (ℕ × ι) → Bool
  | _, [] => true
  | s, (i, x) :: l =>
    c s i x && match M i s.shared (s.pc i) x with
      | none => false
      | some (w, p) => checked M c (s.move i w p) l

lemma Run.exec_checked {M : Machine σ π ι} {C : Cond σ π ι} {c : Conf σ π → ℕ → ι → Bool}
    (le : ∀ {tr s i x}, c s i x = true → C tr s i x) {s₀ tr s l} (run : Run M C s₀ tr s)
    (ok : checked M c s l = true) :
    ∃ r, exec M s tr l = some r ∧ Run M C s₀ r.1 r.2 := by
  induction l generalizing tr s with
  | nil => exact ⟨_, rfl, run⟩
  | cons a l ih =>
    obtain ⟨i, x⟩ := a
    rw [checked, Bool.and_eq_true] at ok
    obtain ⟨hc, ok⟩ := ok
    split at ok
    · cases ok
    · rename_i w p st
      simp only [exec, st]
      exact ih (.cons run (le hc) st) ok

/-- A schedule whose steps are checked to meet a condition gives a run under it. -/
theorem exec_run_checked {M : Machine σ π ι} {C : Cond σ π ι} {c : Conf σ π → ℕ → ι → Bool}
    (le : ∀ {tr s i x}, c s i x = true → C tr s i x) {s₀ l} (ok : checked M c s₀ l = true) :
    Run M C s₀ (traceOf M s₀ l) (finalOf M s₀ l) := by
  obtain ⟨r, ex, run⟩ := Run.exec_checked le .nil ok
  rw [traceOf, finalOf, ex]
  exact run

lemma exec_pc {M : Machine σ π ι} {s tr l tr' s'} {k : ℕ} (ex : exec M s tr l = some (tr', s'))
    (out : ∀ a ∈ l, k ≠ a.1) : s'.pc k = s.pc k := by
  induction l generalizing tr s with
  | nil =>
    cases ex
    rfl
  | cons a l ih =>
    obtain ⟨i, x⟩ := a
    rw [exec] at ex
    split at ex
    · cases ex
    · rw [ih ex fun a ha => out a (List.mem_cons_of_mem _ ha)]
      exact Conf.move_pc_of_ne (out (i, x) List.mem_cons_self)

/-- A thread that a schedule leaves out stays where it is. -/
lemma finalOf_pc {M : Machine σ π ι} {s l} {k : ℕ} (out : ∀ a ∈ l, k ≠ a.1) :
    (finalOf M s l).pc k = s.pc k := by
  unfold finalOf
  cases ex : exec M s [] l with
  | none => rfl
  | some r => exact exec_pc ex out

/-- What holds of every thread at the start and of the threads of a schedule after it holds of every
thread after it. -/
lemma finalOf_forall {M : Machine σ π ι} {s l} {P : ℕ → π → Prop} {b : ℕ}
    (init : ∀ k, P k (s.pc k)) (bound : ∀ a ∈ l, a.1 < b)
    (h : ∀ k < b, P k ((finalOf M s l).pc k)) (k : ℕ) : P k ((finalOf M s l).pc k) := by
  rcases Nat.lt_or_ge k b with lt | ge
  · exact h k lt
  · rw [finalOf_pc fun a ha => Nat.ne_of_gt (Nat.lt_of_lt_of_le (bound a ha) ge)]
    exact init k

end Interleave
