import Mathlib.Data.Option.Basic
import Mathlib.Order.MinMax

/-!
# Edit stamps

The stamps of `server/sync/merge.py`. A TigerSync stamp is a clock value, the whole
microseconds since the Unix epoch, so `to_clock` and `from_clock` are the identity here.
Arrival times lie more than `MAX_EDIT_AGE` after the epoch, so that no subtraction below
reaches it.
-/

namespace TigerDuck

/-- A time as a TigerSync clock value: microseconds since the Unix epoch. -/
abbrev Time := Nat

/-- A `user_devices.id`. -/
abbrev DeviceId := Nat

/-- The answer of a request that FastAPI turns into an error response. -/
structure HttpError where
  status : Nat
  detail : String
  deriving DecidableEq, Repr

namespace Sync

/-- How far a client's stamp may run ahead of its arrival: five seconds. -/
def MAX_CLOCK_SKEW : Time := 5 * 1000000

/-- One millisecond in clock units. -/
def MS : Time := 1000

/-- The oldest an `age_ms` can date an edit: 365 days. -/
def MAX_EDIT_AGE : Time := 365 * 24 * 60 * 60 * 1000000

/-- What a value sent without a time counts as. -/
def OLDEST : Time := 0

/-- `clamp_ts`: a client's time, held to `skew` past `now`. -/
def clampTs (clientTs now skew : Time) : Time := min clientTs (now + skew)

/-- `edit_time`: a request's stamp. An `age_ms` dates it back from the arrival, whatever
the clock says; a clock further ahead than the skew is refused. -/
def editTime (clock : Option Time) (now : Time) (ageMs : Option Int) : Except HttpError Time :=
  match ageMs, clock with
  | some age, _ => .ok (now - min age.toNat (MAX_EDIT_AGE / MS) * MS)
  | none, none => .ok now
  | none, some clock =>
    if now + MAX_CLOCK_SKEW < clock then .error ⟨409, "clock_ahead"⟩ else .ok clock

/-- `require_stamp`: an app that stamps its edits must send each one's age or clock. -/
def requireStamp (speaksClock : Bool) (clock : Option Time) (ageMs : Option Int) :
    Except HttpError Unit :=
  if speaksClock && clock.isNone && ageMs.isNone then .error ⟨422, "hlc_required"⟩ else .ok ()

/-- A merged field with its stamp and the device that set it: `<field>`,
`<field>_updated_at` and `<field>_device_id`. -/
structure Field (α : Type) where
  value : α
  updatedAt : Option Time
  deviceId : Option DeviceId
  deriving DecidableEq, Repr

/-- A field nothing has set. -/
def Field.unset {α : Type} (value : α) : Field α := ⟨value, none, none⟩

/-- `apply_field`: the edit applies when its clamped stamp is later than the stored one.
The answer says whether the value changed. -/
def applyField {α : Type} [DecidableEq α] (field : Field α) (value : α) (clientTs : Time)
    (deviceId : Option DeviceId) (now : Time) : Field α × Bool :=
  let effectiveTs := clampTs clientTs now MAX_CLOCK_SKEW
  if field.updatedAt.any (effectiveTs ≤ ·) then (field, false)
  else (⟨value, some effectiveTs, deviceId⟩, field.value != value)

end Sync

end TigerDuck
