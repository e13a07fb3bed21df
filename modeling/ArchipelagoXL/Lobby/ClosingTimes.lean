import Mathlib.Algebra.Order.Ring.Int
import Mathlib.Tactic.Ring
import ArchipelagoXL.Lobby.Generation

/-!
# Closing times

The form of a room gives its closing time as a local time and the minutes from it to UTC. `parseDate`
puts them together, and `validateCloseDate` holds the result to 183 days from now unless it is the
minute the room closes at already. The minutes are multiplied to seconds in 32 bits before they are
checked, which wraps: an offset of years can come out as one of seconds (`closingTimes_exact_iff`).

Times are in nanoseconds since the epoch. What a form says about anything else is left out but for
whether it is refused.
-/

namespace ArchipelagoXL.Lobby

/-- What is used of `chrono`: how it reads a text with `%Y-%m-%dT%H:%M`, which gives whole minutes, and
which times it can hold. -/
structure Chrono where
  parseFromStr : String → Except String ℤ
  representable : ℤ → Bool
  whole_minutes : ∀ (text : String) (time : ℤ), parseFromStr text = .ok time → minute ∣ time

/-- Nanoseconds in a second. -/
def second : ℤ := 10 ^ 9

/-- Rust `FixedOffset::west_opt`: the seconds west of UTC, if they are less than a day. -/
def westOpt (secs : Int32) : Option ℤ :=
  if -86400 < secs.toInt ∧ secs.toInt < 86400 then some secs.toInt else none

/-- Rust `parse_date`, as it is built for release: the product wraps. -/
def parseDate (chrono : Chrono) (date : String) (tzOffset : Int32) : Except String ℤ :=
  match westOpt (tzOffset * 60) with
  | none => .error "Wrong timezone offset"
  | some offset =>
    match chrono.parseFromStr date with
    | .error e => .error e
    | .ok datetime =>
      if chrono.representable (datetime + offset * second) then .ok (datetime + offset * second)
      else .error "Cannot parse passed datetime"

/-- A form that is sent to make or change a room, with the time at which it is checked and what the
checks that are not about its date say. -/
structure RoomSubmission where
  closeDate : String
  tzOffset : Int32
  now : ℤ
  refused : Option String

/-- The closing time that a request gives a room that has the closing time `current`, if it is accepted. -/
def submitted (chrono : Chrono) (current : Option ℤ) (request : RoomSubmission) : Except String ℤ :=
  match request.refused with
  | some message => .error message
  | none =>
    match parseDate chrono request.closeDate request.tzOffset with
    | .error e => .error e
    | .ok closeDate =>
      match validateCloseDate closeDate current request.now with
      | some message => .error message
      | none => .ok closeDate

/-- Rust `create_room_submit`, of which the closing time is kept. -/
def createRoomSubmit (chrono : Chrono) (request : RoomSubmission) : Except String ℤ :=
  submitted chrono none request

/-- Rust `edit_room_submit`, of which the closing time is kept. -/
def editRoomSubmit (chrono : Chrono) (current : ℤ) (request : RoomSubmission) : Except String ℤ :=
  submitted chrono (some current) request

/-- The closing time of a room, and when it was last moved to another minute. -/
structure Closing where
  closeDate : ℤ
  moved : ℤ

/-- The closing times that a room gets to by accepted requests that meet `ok`. -/
inductive Closing.Reached (chrono : Chrono) (ok : RoomSubmission → Prop) : Closing → Prop where
  | create {request : RoomSubmission} {closeDate : ℤ} (meets : ok request)
      (accepted : createRoomSubmit chrono request = .ok closeDate) :
      Reached chrono ok ⟨closeDate, request.now⟩
  | edit {room : Closing} {request : RoomSubmission} {closeDate : ℤ} (before : Reached chrono ok room)
      (meets : ok request) (accepted : editRoomSubmit chrono room.closeDate request = .ok closeDate) :
      Reached chrono ok
        ⟨closeDate, if closeDate / minute = room.closeDate / minute then room.moved else request.now⟩

/-! ## One request -/

section

variable {chrono : Chrono} {request : RoomSubmission}

/-- The multiplication of `parseDate` stays within 32 bits. -/
def Fits (tzOffset : Int32) : Prop := -35791394 ≤ tzOffset.toInt ∧ tzOffset.toInt ≤ 35791394

instance decidableFits (tzOffset : Int32) : Decidable (Fits tzOffset) :=
  inferInstanceAs (Decidable (_ ∧ _))

lemma fits_iff {tzOffset : Int32} : Fits tzOffset ↔ -2 ^ 31 ≤ tzOffset.toInt * 60 ∧ tzOffset.toInt * 60 < 2 ^ 31 := by
  unfold Fits
  omega

/-- Without an overflow the product is the product. -/
lemma toInt_mul_sixty {tzOffset : Int32} (fits : Fits tzOffset) : (tzOffset * 60).toInt = tzOffset.toInt * 60 := by
  have bounds := fits_iff.mp fits
  rw [Int32.toInt_mul, show (60 : Int32).toInt = 60 from rfl]
  exact Int.bmod_eq_of_le (by omega) (by omega)

lemma parseDate_ok {date : String} {tzOffset : Int32} {closeDate : ℤ}
    (parsed : parseDate chrono date tzOffset = .ok closeDate) :
    ∃ typed, chrono.parseFromStr date = .ok typed ∧ closeDate = typed + (tzOffset * 60).toInt * second := by
  unfold parseDate westOpt at parsed
  split at parsed
  · cases parsed
  · rename_i offset west
    split at west
    · cases west
      split at parsed
      · cases parsed
      · rename_i typed read
        split at parsed
        · cases parsed
          exact ⟨typed, read, rfl⟩
        · cases parsed
    · cases west

lemma submitted_ok {current : Option ℤ} {closeDate : ℤ} (accepted : submitted chrono current request = .ok closeDate) :
    parseDate chrono request.closeDate request.tzOffset = .ok closeDate ∧
      validateCloseDate closeDate current request.now = none := by
  unfold submitted at accepted
  split at accepted
  · cases accepted
  · split at accepted
    · cases accepted
    · rename_i parsed
      split at accepted
      · cases accepted
      · rename_i valid
        cases accepted
        exact ⟨parsed, valid⟩

/-- An accepted time that is not the minute of before is within the limit. -/
lemma le_of_valid {closeDate now : ℤ} {current : Option ℤ} (valid : validateCloseDate closeDate current now = none)
    (moved : ∀ t, current = some t → closeDate / minute ≠ t / minute) :
    closeDate ≤ now + maxDaysUntilClose * (24 * 60 * minute) := by
  unfold validateCloseDate at valid
  split at valid
  · rename_i same
    cases current with
    | none => cases same
    | some t => exact absurd (beq_iff_eq.mp same).symm (moved t rfl)
  · split at valid
    · cases valid
    · rename_i within
      exact not_lt.mp within

/-- Without an overflow the product is the product, and no other product is. -/
lemma toInt_mul_sixty_iff {tzOffset : Int32} : (tzOffset * 60).toInt = tzOffset.toInt * 60 ↔ Fits tzOffset := by
  refine ⟨fun same => ?_, toInt_mul_sixty⟩
  rw [fits_iff, ← same]
  exact ⟨Int32.le_toInt _, Int32.toInt_lt _⟩

/-- The stored time is the typed one and the offset, to the minute, unless the product wraps. -/
lemma accepted_exact_iff {current : Option ℤ} {closeDate : ℤ}
    (accepted : submitted chrono current request = .ok closeDate) :
    (∃ typed, chrono.parseFromStr request.closeDate = .ok typed ∧
        closeDate = typed + request.tzOffset.toInt * minute) ↔ Fits request.tzOffset := by
  obtain ⟨typed, read, sum⟩ := parseDate_ok (submitted_ok accepted).1
  have scale : ∀ n : ℤ, n * minute = n * 60 * second := by
    intro n
    rw [minute, second]
    ring
  rw [← toInt_mul_sixty_iff]
  constructor
  · rintro ⟨typed', read', exact_⟩
    obtain rfl : typed = typed' := Except.ok.inj (read.symm.trans read')
    rw [scale] at exact_
    have product := Int.add_left_cancel (sum.symm.trans exact_)
    exact Int.eq_of_mul_eq_mul_right (by decide) product
  · intro product
    refine ⟨typed, read, ?_⟩
    rw [sum, scale, product]

lemma accepted_minutes {current : Option ℤ} {closeDate : ℤ} (fits : Fits request.tzOffset)
    (accepted : submitted chrono current request = .ok closeDate) : minute ∣ closeDate := by
  obtain ⟨typed, read, rfl⟩ := (accepted_exact_iff accepted).mpr fits
  exact Int.dvd_add (chrono.whole_minutes _ _ read) (Dvd.intro_left _ rfl)

end

/-! ## Any number of requests -/

/-- A room whose requests stay within 32 bits closes at a whole minute, within the limit of the request
that moved it there. -/
lemma Closing.Reached.holds {chrono : Chrono} {room : Closing}
    (reached : Reached chrono (fun request => Fits request.tzOffset) room) :
    minute ∣ room.closeDate ∧ room.closeDate ≤ room.moved + maxDaysUntilClose * (24 * 60 * minute) := by
  induction reached with
  | create meets accepted =>
    refine ⟨accepted_minutes meets accepted, le_of_valid (submitted_ok accepted).2 ?_⟩
    intro t none
    cases none
  | @edit room request closeDate before meets accepted ih =>
    have whole := accepted_minutes meets accepted
    refine ⟨whole, ?_⟩
    obtain ⟨wholeBefore, within⟩ := ih
    by_cases same : closeDate / minute = room.closeDate / minute
    · -- times of the same minute without seconds are the same time
      have unmoved : closeDate = room.closeDate := by
        rw [← Int.mul_ediv_cancel' whole, same, Int.mul_ediv_cancel' wholeBefore]
      rw [if_pos same, unmoved]
      exact within
    · rw [if_neg same]
      refine le_of_valid (submitted_ok accepted).2 ?_
      intro t here
      cases here
      exact same

/-- How the dates of the examples below are read. -/
def sampleChrono : Chrono where
  parseFromStr text :=
    if text = "1970-01-02T00:00" then .ok (1440 * minute) else .error "input contains invalid characters"
  representable _ := true
  whole_minutes := by
    intro text time read
    split at read
    · cases read
      exact Dvd.intro_left _ rfl
    · cases read

/-- A form with the second day of the epoch as its date. -/
def secondDay (tzOffset : Int32) : RoomSubmission :=
  { closeDate := "1970-01-02T00:00", tzOffset, now := 0, refused := none }

/-- Closing times are exact when the multiplication of the offset stays within 32 bits, and then they are
bounded over any number of requests. -/
theorem closingTimes_exact_iff (chrono : Chrono) :
    (∀ (current : ℤ) (request : RoomSubmission) (closeDate : ℤ),
      editRoomSubmit chrono current request = .ok closeDate →
        ((∃ typed, chrono.parseFromStr request.closeDate = .ok typed ∧
            closeDate = typed + request.tzOffset.toInt * minute) ↔ Fits request.tzOffset) ∧
          ((request.tzOffset * 60).toInt = request.tzOffset.toInt * 60 ↔ Fits request.tzOffset)) ∧
      ∀ room : Closing, Closing.Reached chrono (fun request => Fits request.tzOffset) room →
        room.closeDate ≤ room.moved + maxDaysUntilClose * (24 * 60 * minute) :=
  ⟨fun _ _ _ accepted => ⟨accepted_exact_iff accepted, toInt_mul_sixty_iff⟩, fun _ reached => reached.holds.2⟩

/-- Two hours east of UTC: the room is stored with the time two hours earlier, and has room to its limit. -/
theorem closingTimes_exact_east :
    (∃ typed, sampleChrono.parseFromStr "1970-01-02T00:00" = .ok typed ∧
        1320 * minute = typed + (-120 : Int32).toInt * minute) ∧
      1320 * minute ≤ 0 + maxDaysUntilClose * (24 * 60 * minute) :=
  ⟨((closingTimes_exact_iff sampleChrono).1 0 (secondDay (-120)) (1320 * minute) rfl).1.mpr (by decide),
    (closingTimes_exact_iff sampleChrono).2 ⟨1320 * minute, 0⟩
      (@Closing.Reached.create sampleChrono _ (secondDay (-120)) _ (by decide) rfl)⟩

/-- An offset of more than a century wraps to 16 seconds, and the form is accepted. -/
theorem wrapped_offset_accepted :
    editRoomSubmit sampleChrono 0 (secondDay 71582788) = .ok (1440 * minute - 16 * second) ∧
      ¬ ∃ typed, sampleChrono.parseFromStr "1970-01-02T00:00" = .ok typed ∧
        1440 * minute - 16 * second = typed + (71582788 : Int32).toInt * minute := by
  refine ⟨rfl, ?_⟩
  rintro ⟨typed, read, same⟩
  cases Except.ok.inj read
  revert same
  decide

end ArchipelagoXL.Lobby
