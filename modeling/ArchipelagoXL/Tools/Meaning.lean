import Mathlib.Data.List.Perm.Basic
import ArchipelagoXL.Tools.Rolls

/-!
# The meaning of a predicate

What an accepted predicate whose patterns compile says of a section, with each check on its own: a check of weights
says that one of the keys that are switched on passes it. Evaluation stops early and counts on the way, and comes to
the same (`evaluatePredicate_meaning`), in whichever order the members of predicates and the entries of mappings
come. Whether an option exists is not a matter of its weights (`exists_not_weighted`).
-/

namespace ArchipelagoXL.Tools

/-! ## Meaning -/

/-- The entries of a mapping that holds weights. -/
def weights (v : Value) : Option (List (Value × Value)) :=
  v.asMapping.filter fun entries => looksLikeWeighted entries && !entries.isEmpty

/-- How many values a sequence or a mapping has. -/
def size (v : Value) : Option ℕ :=
  match v with
  | .sequence items => some items.length
  | .mapping entries => some entries.length
  | _ => none

/-- Whether a value passes a check. -/
def holdsOf (re : RegexLib) (check : RuleCheck) (v : Value) : Bool :=
  match check with
  | .count inner => (size v).any fun n => evaluateCountCheck n inner
  | .contains _ | .notContains _ => passes re check v
  | _ =>
    match weights v with
    | some entries => entries.any fun e => e.2.asInteger.getD 0 != 0 && passes re check e.1
    | none => passes re check v

/-- Whether a check at a path holds of a section. -/
def leaf (re : RegexLib) (w : Value) (path : String) (check : RuleCheck) : Bool :=
  match check, navigatePath w path with
  | .exists_, found => found.isSome
  | .notExists, found => found.isNone
  | .notContains _, none => true
  | _, none => false
  | check, some v => holdsOf re check v

mutual

/-- What a predicate says where `val` says which checks hold. -/
def Predicate.meaning (val : String → RuleCheck → Bool) : Predicate → Bool
  | .check path check => val path check
  | .and ps => (meaningEach val ps).all id
  | .or ps => (meaningEach val ps).any id
  | .not p => !p.meaning val
  | .atLeast count ps => decide (count ≤ (meaningEach val ps).count true)

def meaningEach (val : String → RuleCheck → Bool) : List Predicate → List Bool
  | [] => []
  | p :: ps => p.meaning val :: meaningEach val ps

end

/-- The patterns of a predicate compile. -/
def Compiles (re : RegexLib) (p : Predicate) : Prop :=
  ∀ a ∈ p.atoms false, ∀ pattern, a.check = .regex pattern → ∃ isMatch, re.build pattern = .ok isMatch

/-! ## Orders -/

/-- The members of a predicate in another order, at any depth. -/
inductive Predicate.Reordered : Predicate → Predicate → Prop
  | refl (p) : Reordered p p
  | trans {p q r} : Reordered p q → Reordered q r → Reordered p r
  | and {ps qs} : ps.Perm qs → Reordered (.and ps) (.and qs)
  | or {ps qs} : ps.Perm qs → Reordered (.or ps) (.or qs)
  | atLeast {count ps qs} : ps.Perm qs → Reordered (.atLeast count ps) (.atLeast count qs)
  | not {p q} : Reordered p q → Reordered (.not p) (.not q)
  | inAnd {p q before after} : Reordered p q → Reordered (.and (before ++ p :: after)) (.and (before ++ q :: after))
  | inOr {p q before after} : Reordered p q → Reordered (.or (before ++ p :: after)) (.or (before ++ q :: after))
  | inAtLeast {count p q before after} : Reordered p q →
    Reordered (.atLeast count (before ++ p :: after)) (.atLeast count (before ++ q :: after))

/-- The entries of mappings in another order, at any depth. -/
inductive Value.Reordered : Value → Value → Prop
  | refl (v) : Reordered v v
  | trans {u v w} : Reordered u v → Reordered v w → Reordered u w
  | entries {es es'} : es.Perm es' → Reordered (.mapping es) (.mapping es')
  | key {k k' v before after} : Reordered k k' →
    Reordered (.mapping (before ++ (k, v) :: after)) (.mapping (before ++ (k', v) :: after))
  | value {k v v' before after} : Reordered v v' →
    Reordered (.mapping (before ++ (k, v) :: after)) (.mapping (before ++ (k, v') :: after))
  | item {v v' before after} : Reordered v v' →
    Reordered (.sequence (before ++ v :: after)) (.sequence (before ++ v' :: after))

/-- No mapping has a text for two of its keys. -/
inductive Value.Keyed : Value → Prop
  | mapping {entries} : (entries.filterMap fun e : Value × Value => e.1.asStr).Nodup → (∀ e ∈ entries, Keyed e.2) →
    Keyed (.mapping entries)
  | other {v} : v.asMapping = none → Keyed v

/-! ## Evaluation comes to the meaning -/

section
variable {re : RegexLib} {w : Value} {p : Predicate} {check : RuleCheck} {val : String → RuleCheck → Bool}

lemma meaningEach_eq (ps : List Predicate) : meaningEach val ps = ps.map (Predicate.meaning val) := by
  induction ps with
  | nil => rfl
  | cons p ps ih => rw [meaningEach, ih, List.map_cons]

/-- Of an accepted predicate, at least one member counts. -/
lemma meaning_eq_denote (accepted : p.validate re = .ok ()) : p.meaning val = p.denote val := by
  induction p using Predicate.ind with
  | check path check => rfl
  | and ps ih =>
    rw [Predicate.validate, validateAll_ok] at accepted
    rw [Predicate.meaning, Predicate.denote, meaningEach_eq, denoteEach_eq,
      List.map_congr_left fun p mem => ih p mem (accepted p mem)]
  | or ps ih =>
    rw [Predicate.validate, validateAll_ok] at accepted
    rw [Predicate.meaning, Predicate.denote, meaningEach_eq, denoteEach_eq,
      List.map_congr_left fun p mem => ih p mem (accepted p mem)]
  | not p ih => rw [Predicate.meaning, Predicate.denote, ih accepted]
  | atLeast count ps ih =>
    rw [Predicate.validate] at accepted
    split at accepted
    · cases accepted
    case isFalse positive =>
      split at accepted
      · cases accepted
      · rw [validateAll_ok] at accepted
        rw [Predicate.meaning, Predicate.denote, meaningEach_eq, denoteEach_eq,
          List.map_congr_left fun p mem => ih p mem (accepted p mem), max_eq_left (Nat.pos_of_ne_zero positive)]

/-- A check that is made of single values. -/
def RuleCheck.ofSingle : RuleCheck → Bool
  | .count _ | .exists_ | .notExists => false
  | _ => true

lemma checkSingleValue_of_compiles (single : check.ofSingle = true)
    (compiles : ∀ pattern, check = .regex pattern → ∃ isMatch, re.build pattern = .ok isMatch) (v : Value) :
    checkSingleValue re v check = .ok (passes re check v) := by
  have evaluated : ∃ b, checkSingleValue re v check = .ok b := by
    rw [checkSingleValue.eq_def]
    cases parseRandom v with
    | some bounds => exact ⟨_, rfl⟩
    | none =>
      cases check with
      | count | exists_ | notExists => cases single
      | regex pattern =>
        obtain ⟨isMatch, built⟩ := compiles pattern rfl
        refine ⟨isMatch (yamlValueAsString v), ?_⟩
        dsimp only
        rw [built]
        rfl
      | _ => exact ⟨_, rfl⟩
  obtain ⟨b, evaluated⟩ := evaluated
  rw [passes, evaluated]

lemma someKey_of_compiles (each : ∀ v, checkSingleValue re v check = .ok (passes re check v))
    (entries : List (Value × Value)) :
    someKey re check entries = .ok (entries.any fun e => e.2.asInteger.getD 0 != 0 && passes re check e.1) := by
  induction entries with
  | nil => rfl
  | cons e rest ih =>
    obtain ⟨key, weight⟩ := e
    rw [someKey, ih, List.any_cons, each]
    by_cases zero : weight.asInteger.getD 0 = 0
    · rw [if_pos zero, bne_eq_false_iff_eq.mpr zero]
      rfl
    · rw [if_neg zero, bne_iff_ne.mpr zero]
      cases passes re check key with
      | _ => rfl

/-- A check that is made of the keys of weights. -/
def RuleCheck.ofKeys : RuleCheck → Bool
  | .count _ | .contains _ | .notContains _ => false
  | _ => true

lemma holdsOf_eq (keys : check.ofKeys = true) (v : Value) :
    holdsOf re check v = (weights v).elim (passes re check v) fun entries =>
      entries.any fun e => e.2.asInteger.getD 0 != 0 && passes re check e.1 := by
  cases check with
  | count | contains | notContains => cases keys
  | _ =>
    rw [holdsOf.eq_def]
    cases weights v with
    | _ => rfl

lemma evaluateCheck_of_keys (single : check.ofSingle = true) (keys : check.ofKeys = true) (v : Value) :
    evaluateCheck re v check = v.asMapping.elim (checkSingleValue re v check) fun entries =>
      if looksLikeWeighted entries && !entries.isEmpty then someKey re check entries
      else checkSingleValue re v check := by
  cases check with
  | count | contains | notContains => cases keys
  | exists_ | notExists => cases single
  | _ =>
    rw [evaluateCheck.eq_def]
    cases v.asMapping with
    | _ => rfl

lemma evaluateCheck_of_compiles (present : check ≠ .exists_ ∧ check ≠ .notExists)
    (compiles : ∀ pattern, check = .regex pattern → ∃ isMatch, re.build pattern = .ok isMatch) (v : Value) :
    evaluateCheck re v check = .ok (holdsOf re check v) := by
  have single := fun ofSingle => checkSingleValue_of_compiles ofSingle compiles
  have weighted : check.ofSingle = true → check.ofKeys = true →
      evaluateCheck re v check = .ok (holdsOf re check v) := by
    intro ofSingle keys
    have each := single ofSingle
    rw [evaluateCheck_of_keys ofSingle keys, holdsOf_eq keys, weights]
    cases v.asMapping with
    | none => exact each v
    | some entries =>
      rw [Option.elim_some, Option.filter_some]
      split
      · exact someKey_of_compiles each entries
      · exact each v
  cases check with
  | exists_ => exact (present.1 rfl).elim
  | notExists => exact (present.2 rfl).elim
  | count inner =>
    cases v with
    | _ => rfl
  | contains value => exact single rfl v
  | notContains value => exact single rfl v
  | _ => exact weighted rfl rfl

lemma evaluateAt_of_compiles
    (compiles : ∀ pattern, check = .regex pattern → ∃ isMatch, re.build pattern = .ok isMatch) (path : String) :
    evaluateAt re path check w = .ok (leaf re w path check) := by
  have there : ∀ v, check ≠ .exists_ ∧ check ≠ .notExists → evaluateCheck re v check = .ok (holdsOf re check v) :=
    fun v present => evaluateCheck_of_compiles present compiles v
  rw [evaluateAt.eq_def, leaf.eq_def]
  cases navigatePath w path with
  | none =>
    cases check with
    | _ => rfl
  | some v =>
    cases check with
    | exists_ | notExists => rfl
    | _ => exact there v ⟨by simp, by simp⟩

lemma Compiles.evaluates (compiles : Compiles re p) : Evaluates re w (leaf re w) (p.atoms false) :=
  fun a mem => evaluateAt_of_compiles (compiles a mem) a.path

end

/-! ## The order of entries -/

section
variable {re : RegexLib} {v v' w w' : Value} {check : RuleCheck}

/-- What is the same for all mappings and for all sequences does not change with an order. -/
lemma Value.Reordered.observe {A : Type} {f : Value → A} (mapping : ∀ es es', f (.mapping es) = f (.mapping es'))
    (sequence : ∀ items items', f (.sequence items) = f (.sequence items')) (r : v.Reordered v') : f v = f v' := by
  induction r with
  | refl v => rfl
  | trans _ _ ih ih' => exact ih.trans ih'
  | entries perm => exact mapping _ _
  | key _ _ => exact mapping _ _
  | value _ _ => exact mapping _ _
  | item _ _ => exact sequence _ _

lemma Value.Reordered.asStr (r : v.Reordered v') : v.asStr = v'.asStr :=
  r.observe (fun _ _ => rfl) fun _ _ => rfl

lemma Value.Reordered.asInteger (r : v.Reordered v') : v.asInteger = v'.asInteger :=
  r.observe (fun _ _ => rfl) fun _ _ => rfl

lemma Value.Reordered.yamlValueAsString (r : v.Reordered v') : yamlValueAsString v = yamlValueAsString v' :=
  r.observe (fun _ _ => rfl) fun _ _ => rfl

lemma Value.Reordered.isTrueish (r : v.Reordered v') : isTrueish v = isTrueish v' :=
  r.observe (fun _ _ => rfl) fun _ _ => rfl

lemma Value.Reordered.size (r : v.Reordered v') : size v = size v' := by
  induction r with
  | refl v => rfl
  | trans _ _ ih ih' => exact ih.trans ih'
  | entries perm => exact congrArg some perm.length_eq
  | key _ _ | value _ _ | item _ _ => simp [Tools.size]

lemma Value.Reordered.containsValue (r : v.Reordered v') (value : String) :
    containsValue v value = containsValue v' value := by
  induction r with
  | refl v => rfl
  | trans _ _ ih ih' => exact ih.trans ih'
  | entries perm => exact perm.any_eq
  | key r _ =>
    simp only [Tools.containsValue, Value.asSequence, Value.asMapping, List.any_append, List.any_cons,
      r.yamlValueAsString]
  | value r _ =>
    simp only [Tools.containsValue, Value.asSequence, Value.asMapping, List.any_append, List.any_cons, r.isTrueish]
  | item r _ =>
    simp only [Tools.containsValue, Value.asSequence, List.any_append, List.any_cons, r.yamlValueAsString]

/-- A single value passes a check in any order. -/
lemma Value.Reordered.passes (r : v.Reordered v') : passes re check v = passes re check v' := by
  have random : parseRandom v = parseRandom v' := by
    rw [parseRandom, parseRandom, r.asStr]
  have number : yamlValueAsI64 v = yamlValueAsI64 v' := by
    rw [yamlValueAsI64.eq_def, yamlValueAsI64.eq_def, r.asInteger, r.asStr]
  rw [Tools.passes, Tools.passes, checkSingleValue.eq_def, checkSingleValue.eq_def, random]
  cases parseRandom v' with
  | some bounds => rfl
  | none =>
    cases check with
    | contains value | notContains value => simp only [r.containsValue]
    | _ => simp only [r.isTrueish, r.yamlValueAsString, number]

/-- Weights pass a check in any order. -/
lemma Value.Reordered.weighted (r : v.Reordered v') :
    ((weights v).elim (Tools.passes re check v) fun entries =>
      entries.any fun e => e.2.asInteger.getD 0 != 0 && Tools.passes re check e.1) =
    (weights v').elim (Tools.passes re check v') fun entries =>
      entries.any fun e => e.2.asInteger.getD 0 != 0 && Tools.passes re check e.1 := by
  -- two mappings that are weights both or neither
  have step : ∀ {es es' : List (Value × Value)}, (Value.mapping es).Reordered (.mapping es') →
      looksLikeWeighted es = looksLikeWeighted es' → es.isEmpty = es'.isEmpty →
      (es.any fun e => e.2.asInteger.getD 0 != 0 && Tools.passes re check e.1) =
        (es'.any fun e => e.2.asInteger.getD 0 != 0 && Tools.passes re check e.1) →
      ((weights (.mapping es)).elim (Tools.passes re check (.mapping es)) fun entries =>
        entries.any fun e => e.2.asInteger.getD 0 != 0 && Tools.passes re check e.1) =
      (weights (.mapping es')).elim (Tools.passes re check (.mapping es')) fun entries =>
        entries.any fun e => e.2.asInteger.getD 0 != 0 && Tools.passes re check e.1 := by
    intro es es' r looks empty some
    rw [weights, weights, Value.asMapping, Value.asMapping, Option.filter_some, Option.filter_some, looks, empty]
    split
    · exact some
    · exact r.passes
  induction r with
  | refl v => rfl
  | trans _ _ ih ih' => exact ih.trans ih'
  | entries perm => exact step (.entries perm) perm.all_eq (by simp [perm.isEmpty_eq]) perm.any_eq
  | @key k k' v before after r _ =>
    apply step (.key r)
    · simp [looksLikeWeighted]
    · cases before with
      | _ => rfl
    · rw [List.any_append, List.any_append, List.any_cons, List.any_cons, r.passes]
  | @value k v v' before after r _ =>
    apply step (.value r)
    · simp [looksLikeWeighted, r.asInteger]
    · cases before with
      | _ => rfl
    · rw [List.any_append, List.any_append, List.any_cons, List.any_cons, r.asInteger]
  | item r _ => exact (Value.Reordered.item r).passes

lemma Value.Reordered.holdsOf (r : v.Reordered v') : holdsOf re check v = holdsOf re check v' := by
  cases check with
  | count inner => rw [Tools.holdsOf, Tools.holdsOf, r.size]
  | contains value | notContains value => exact r.passes
  | _ => rw [holdsOf_eq rfl, holdsOf_eq rfl, r.weighted]

/-! ## Looking up in another order -/

lemma Value.Keyed.mapping_iff {entries : List (Value × Value)} :
    (Value.mapping entries).Keyed ↔
      (entries.filterMap fun e : Value × Value => e.1.asStr).Nodup ∧ ∀ e ∈ entries, e.2.Keyed := by
  constructor
  · intro keyed
    cases keyed with
    | mapping nodup each => exact ⟨nodup, each⟩
    | other noMapping => cases noMapping
  · rintro ⟨nodup, each⟩
    exact .mapping nodup each

lemma Value.Reordered.keyed (r : v.Reordered v') (keyed : v.Keyed) : v'.Keyed := by
  induction r with
  | refl v => exact keyed
  | trans _ _ ih ih' => exact ih' (ih keyed)
  | entries perm =>
    obtain ⟨nodup, each⟩ := Value.Keyed.mapping_iff.mp keyed
    exact .mapping ((perm.filterMap _).nodup_iff.mp nodup) fun e mem => each e (perm.mem_iff.mpr mem)
  | @key k k' v before after r _ =>
    obtain ⟨nodup, each⟩ := Value.Keyed.mapping_iff.mp keyed
    refine .mapping ?_ fun e mem => ?_
    · rw [List.filterMap_append, List.filterMap_cons, r.asStr] at nodup
      rw [List.filterMap_append, List.filterMap_cons]
      exact nodup
    · rcases List.mem_append.mp mem with mem | mem
      · exact each e (List.mem_append_left _ mem)
      · rcases List.mem_cons.mp mem with rfl | mem
        · exact each (k, v) (List.mem_append_right _ List.mem_cons_self)
        · exact each e (List.mem_append_right _ (List.mem_cons_of_mem _ mem))
  | @value k v v' before after _ ih =>
    obtain ⟨nodup, each⟩ := Value.Keyed.mapping_iff.mp keyed
    refine .mapping ?_ fun e mem => ?_
    · rw [List.filterMap_append, List.filterMap_cons] at nodup
      rw [List.filterMap_append, List.filterMap_cons]
      exact nodup
    · rcases List.mem_append.mp mem with mem | mem
      · exact each e (List.mem_append_left _ mem)
      · rcases List.mem_cons.mp mem with rfl | mem
        · exact ih (each (k, v) (List.mem_append_right _ List.mem_cons_self))
        · exact each e (List.mem_append_right _ (List.mem_cons_of_mem _ mem))
  | item _ _ => exact .other rfl

/-- With one entry for each text, the order of the entries does not matter. -/
lemma entry_perm {es es' : List (Value × Value)} (perm : es.Perm es')
    (nodup : (es.filterMap fun e : Value × Value => e.1.asStr).Nodup) (k : String) :
    Value.entry es k = Value.entry es' k := by
  induction perm with
  | nil => rfl
  | cons e _ ih =>
    have rest := nodup.sublist ((List.sublist_cons_self e _).filterMap _)
    rw [Value.entry_cons, Value.entry_cons, ih rest]
  | swap e f es =>
    rw [Value.entry_cons, Value.entry_cons, Value.entry_cons, Value.entry_cons]
    by_cases first : e.1.asStr = some k
    · have other : f.1.asStr ≠ some k := by
        intro second
        simp [first, second] at nodup
      rw [if_pos first, if_neg other, if_pos first]
    · rw [if_neg first, if_neg first]
  | trans perm _ ih ih' => exact (ih nodup).trans (ih' ((perm.filterMap _).nodup_iff.mp nodup))

lemma optionRel_refl (found : Option Value) : Option.Rel Value.Reordered found found := by
  cases found with
  | none => exact .none
  | some v => exact .some (.refl v)

/-- What is found under a key is in another order too. -/
lemma Value.Reordered.get (r : v.Reordered v') (keyed : v.Keyed) (k : String) :
    Option.Rel Value.Reordered (v.asMappingGet k) (v'.asMappingGet k) := by
  induction r with
  | refl v => exact optionRel_refl _
  | @trans u v w r r' ih ih' =>
    have first := ih keyed
    have second := ih' (r.keyed keyed)
    generalize u.asMappingGet k = a at first
    generalize v.asMappingGet k = b at first second
    generalize w.asMappingGet k = c at second
    cases first with
    | none => exact second
    | some r =>
      cases second with
      | some r' => exact .some (r.trans r')
  | entries perm =>
    have same := entry_perm perm (Value.Keyed.mapping_iff.mp keyed).1 k
    change Option.Rel _ (Value.entry _ k) (Value.entry _ k)
    rw [same]
    exact optionRel_refl _
  | @key key key' v before after r _ =>
    change Option.Rel _ (Value.entry _ k) (Value.entry _ k)
    rw [Value.entry_append, Value.entry_append, Value.entry_cons, Value.entry_cons, r.asStr]
    exact optionRel_refl _
  | @value key v v' before after r _ =>
    change Option.Rel _ (Value.entry _ k) (Value.entry _ k)
    rw [Value.entry_append, Value.entry_append, Value.entry_cons, Value.entry_cons]
    cases Value.entry before k with
    | some u => exact optionRel_refl _
    | none =>
      by_cases here : key.asStr = some k
      · rw [if_pos here, if_pos here]
        exact .some r
      · rw [if_neg here, if_neg here]
        exact optionRel_refl _
  | item _ _ => exact .none

lemma Value.Keyed.get (keyed : w.Keyed) {k : String} (found : w.asMappingGet k = some v) : v.Keyed := by
  cases w with
  | mapping entries =>
    obtain ⟨e, here, rfl⟩ := Option.map_eq_some_iff.mp found
    exact (Value.Keyed.mapping_iff.mp keyed).2 e (List.mem_of_find?_eq_some here)
  | _ => cases found

lemma Value.Reordered.navigate (r : w.Reordered w') (keyed : w.Keyed) (path : List String) :
    Option.Rel Value.Reordered (navigate path w) (navigate path w') := by
  induction path generalizing w w' with
  | nil => exact .some r
  | cons part rest ih =>
    rw [Tools.navigate, Tools.navigate]
    have step := r.get keyed part
    generalize w'.asMappingGet part = there at step
    cases found : w.asMappingGet part with
    | none =>
      rw [found] at step
      cases step
      exact .none
    | some u =>
      rw [found] at step
      cases step with
      | some r' => exact ih r' (keyed.get found)

/-- A check at a path holds in any order of the entries. -/
lemma Value.Reordered.leaf (r : w.Reordered w') (keyed : w.Keyed) : leaf re w = leaf re w' := by
  funext path check
  have found := r.navigate keyed (splitAt '.' path)
  rw [Tools.leaf.eq_def, Tools.leaf.eq_def, navigatePath, navigatePath]
  generalize Tools.navigate (splitAt '.' path) w = a at found
  generalize Tools.navigate (splitAt '.' path) w' = b at found
  cases found with
  | none => rfl
  | some r' =>
    cases check with
    | exists_ | notExists => rfl
    | _ => exact r'.holdsOf

end

/-! ## The order of members -/

section
variable {re : RegexLib} {w w' : Value} {p p' : Predicate} {val : String → RuleCheck → Bool} {negated : Bool}

lemma Predicate.Reordered.denote (r : p.Reordered p') : p.denote val = p'.denote val := by
  induction r with
  | refl p => rfl
  | trans _ _ ih ih' => exact ih.trans ih'
  | not _ ih => rw [Predicate.denote, Predicate.denote, ih]
  | and perm =>
    rw [Predicate.denote, Predicate.denote, denoteEach_eq, denoteEach_eq]
    exact (perm.map _).all_eq
  | or perm =>
    rw [Predicate.denote, Predicate.denote, denoteEach_eq, denoteEach_eq]
    exact (perm.map _).any_eq
  | atLeast perm =>
    rw [Predicate.denote, Predicate.denote, denoteEach_eq, denoteEach_eq, (perm.map _).count_eq]
  | inAnd _ ih | inOr _ ih | inAtLeast _ ih =>
    rw [Predicate.denote, Predicate.denote, denoteEach_eq, denoteEach_eq, List.map_append, List.map_append,
      List.map_cons, List.map_cons, ih]

/-- The same checks are made in any order. -/
lemma Predicate.Reordered.mem_atoms (r : p.Reordered p') (a : Atom) :
    a ∈ p.atoms negated ↔ a ∈ p'.atoms negated := by
  induction r generalizing negated with
  | refl p => rfl
  | trans _ _ ih ih' => exact ih.trans ih'
  | not _ ih => exact ih
  | and perm | or perm | atLeast perm =>
    rw [Predicate.atoms, Predicate.atoms, mem_atomsEach, mem_atomsEach]
    simp only [perm.mem_iff]
  | inAnd _ ih | inOr _ ih | inAtLeast _ ih =>
    rw [Predicate.atoms, Predicate.atoms, mem_atomsEach, mem_atomsEach]
    simp only [List.mem_append, List.mem_cons, or_and_right, exists_or, exists_eq_left, ih]

/-- An accepted predicate whose patterns compile evaluates to what it means, and to the same with its members and the
entries of the section in any other order. -/
theorem evaluatePredicate_meaning (re : RegexLib) (p : Predicate) (accepted : p.validate re = .ok ())
    (compiles : Compiles re p) (w : Value) :
    evaluatePredicate re w p = .ok (p.meaning (leaf re w)) ∧
      ∀ p' w', p.Reordered p' → w.Keyed → w.Reordered w' →
        evaluatePredicate re w' p' = evaluatePredicate re w p := by
  have here : evaluatePredicate re w p = .ok (p.denote (leaf re w)) := evaluatePredicate_eq compiles.evaluates
  refine ⟨here.trans (congrArg Except.ok (meaning_eq_denote accepted).symm), fun p' w' members keyed entries => ?_⟩
  have compiles' : Compiles re p' := fun a mem => compiles a ((members.mem_atoms a).mpr mem)
  rw [here, evaluatePredicate_eq compiles'.evaluates, ← entries.leaf keyed, members.denote]

end

/-- A section with a goal that has these weights. -/
def goals (entries : List (Value × Value)) : Value := .mapping [(.string "goal", .mapping entries)]

/-- One of two checks of a goal, in two orders of the checks and of the weights. -/
theorem twoOrders_meaning :
    evaluatePredicate noPatterns (goals [(.string "gem", .integer 0), (.integer 3, .integer 50)])
        (.atLeast 1 [.check "goal" (.equals "gem"), .not (.check "goal" .truthy)]) =
      .ok (Predicate.meaning (leaf noPatterns (goals [(.string "gem", .integer 0), (.integer 3, .integer 50)]))
        (.atLeast 1 [.check "goal" (.equals "gem"), .not (.check "goal" .truthy)])) ∧
    evaluatePredicate noPatterns (goals [(.integer 3, .integer 50), (.string "gem", .integer 0)])
        (.atLeast 1 [.not (.check "goal" .truthy), .check "goal" (.equals "gem")]) =
      evaluatePredicate noPatterns (goals [(.string "gem", .integer 0), (.integer 3, .integer 50)])
        (.atLeast 1 [.check "goal" (.equals "gem"), .not (.check "goal" .truthy)]) := by
  have compiles : Compiles noPatterns (.atLeast 1 [.check "goal" (.equals "gem"), .not (.check "goal" .truthy)]) := by
    intro a mem pattern isPattern
    rcases List.mem_cons.mp mem with rfl | mem
    · cases isPattern
    · rw [List.mem_singleton.mp mem] at isPattern
      cases isPattern
  have keyed : (goals [(.string "gem", .integer 0), (.integer 3, .integer 50)]).Keyed := by
    refine .mapping (by decide) fun e mem => ?_
    rw [List.mem_singleton.mp mem]
    refine .mapping (by decide) fun e mem => .other ?_
    rcases List.mem_cons.mp mem with rfl | mem
    · rfl
    · rw [List.mem_singleton.mp mem]
      rfl
  obtain ⟨meant, orders⟩ := evaluatePredicate_meaning noPatterns
    (.atLeast 1 [.check "goal" (.equals "gem"), .not (.check "goal" .truthy)]) rfl compiles
    (goals [(.string "gem", .integer 0), (.integer 3, .integer 50)])
  exact ⟨meant, orders _ _ (.atLeast (.swap _ _ _)) keyed (@Value.Reordered.value _ _ _ [] [] (.entries (.swap _ _ _)))⟩

/-- An option that has only weights of zero exists, although no key of it is switched on. -/
theorem exists_not_weighted : ¬ ∀ (re : RegexLib) (w : Value) (path : String) (check : RuleCheck)
    (entries : List (Value × Value)), check.ofKeys = true → (Predicate.check path check).validate re = .ok () →
    Compiles re (.check path check) → navigatePath w path = some (.mapping entries) →
    looksLikeWeighted entries = true → entries ≠ [] → evaluatePredicate re w (.check path check) = .ok true →
      ∃ e ∈ entries, e.2.asInteger.getD 0 ≠ 0 := by
  intro claim
  have compiles : Compiles noPatterns (.check "goal" .exists_) := by
    intro a mem pattern isPattern
    rw [List.mem_singleton.mp mem] at isPattern
    cases isPattern
  have parts : splitAt '.' "goal" = ["goal"] := by decide +kernel
  have found : navigatePath (goals [(.string "gem", .integer 0)]) "goal" =
      some (.mapping [(.string "gem", .integer 0)]) := by
    rw [navigatePath, parts]
    rfl
  have holds : evaluatePredicate noPatterns (goals [(.string "gem", .integer 0)]) (.check "goal" .exists_) =
      .ok true := by
    rw [evaluatePredicate, evaluateAt.eq_def, found]
    rfl
  obtain ⟨e, mem, positive⟩ := claim noPatterns (goals [(.string "gem", .integer 0)]) "goal" .exists_
    [(.string "gem", .integer 0)] rfl rfl compiles found rfl (List.cons_ne_nil _ _) holds
  rw [List.mem_singleton.mp mem] at positive
  exact positive rfl

end ArchipelagoXL.Tools
