import Mathlib.Algebra.BigOperators.Group.Finset.Basic
import Mathlib.Algebra.Order.BigOperators.Group.Finset
import TigerDuck.Json.Value
import TigerDuck.Relational.PrefixSplit
import TigerDuck.Transition.RowLock
import TigerDuck.Transition.Run

/-!
# The sweep of a term's courses

`_prefixes`, `_call`, `_course_row`, `_courses` and `_sweep` of
`server/course_catalog/refresh.py`. The lanes take the prefixes from one iterator, and each sends
one request at a time. A label says what happens next: a lane goes to the next prefix, a lane's
request comes to its end with what the school replied, or a cancelled lane ends. What the lanes do
between two awaits is one step.

- `prefixes_apart`, `some_prefix_of_wellNumbered`: the prefixes part the course numbers.
- `sweep_exact`: what a sweep of a truthful school returns.
-/

namespace TigerDuck.CourseCatalog

open Relational Transition

/-! ### Prefixes -/

/-- `_ALNUM`. -/
def alnum : List Char := "0123456789ABCDEFGHIJKLMNOPQRSTUVWXYZ".toList

/-- `_SPLIT`. -/
def split : List (List Char) := ["3", "3N", "3T", "C", "E", "M", "T"].map String.toList

/-- `_prefixes`: the prefix, or the prefixes one character longer if it is split. -/
def prefixes (stem : List Char) : List (List Char) := splitPrefix alnum split stem

/-- `PREFIXES`. -/
def allPrefixes : List (List Char) := alnum.flatMap fun c => prefixes [c]

/-- `LANES`. -/
def lanes : ℕ := 3

/-- `ATTEMPTS`. -/
def attempts : ℕ := 3

/-! ### Requests -/

/-- `isinstance(value, str)`. -/
def isText : JsonValue → Bool
  | .str _ => true
  | _ => false

/-- `isinstance(value, str | None)`. -/
def isOptionalText : JsonValue → Bool
  | .str _ => true
  | .null => true
  | _ => false

/-- `value is None or type(value) is int`. -/
def isOptionalInt : JsonValue → Bool
  | .int _ => true
  | .null => true
  | _ => false

/-- `_REQUIRED_TEXT`. -/
def requiredText : List String :=
  ["Semester", "CourseNo", "CourseName", "CourseTeacher", "CreditPoint"]

/-- `_OPTIONAL_TEXT`. -/
def optionalText : List String :=
  ["Dimension", "RequireOption", "AllYear", "Restrict1", "Restrict2",
    "CourseTimes", "PracticalTimes", "ClassRoomNo", "Node", "Contents"]

/-- `_FIELDS`. -/
def fields : List String := requiredText ++ optionalText ++ ["ChooseStudent"]

/-- `_NO_FILTER`. -/
def noFilter : List (String × JsonValue) :=
  [("CourseNo", .str ""), ("CourseName", .str ""), ("CourseTeacher", .str ""),
    ("Dimension", .str ""), ("CourseNotes", .str ""), ("CampusNotes", .str ""),
    ("ForeignLanguage", .int 0), ("OnlyGeneral", .int 0), ("OnleyNTUST", .int 0),
    ("OnlyMaster", .int 0), ("OnlyUnderGraduate", .int 0), ("OnlyNode", .int 0)]

/-- What a request raises. -/
inductive SweepError
  /-- The `ValueError` of `course_query`. -/
  | value (message : String)
  /-- `CatalogFetchError`. -/
  | catalogFetch (message : String)
  /-- Anything else the HTTP client raises. -/
  | client (exception : String)
  deriving DecidableEq, Repr

/-- What comes of one attempt. -/
inductive Reply
  /-- `httpx.TransportError`, by the name of its type. -/
  | transportError (name : String)
  | raised (exception : String)
  /-- A response, and its body if that is JSON. -/
  | response (status : ℕ) (json : Option JsonValue)

/-- What the school replies to each attempt of a request, by the request's body. -/
abbrev Site := List (String × JsonValue) → ℕ → Reply

/-- `course_query`. -/
def courseQuery (semester language courseNo : String) (onlyIntensive : Bool) :
    Except SweepError (List (String × JsonValue)) :=
  if courseNo = "" ∧ onlyIntensive = false then
    .error (.value "the school answers an empty filter with an error after 120 s")
  else
    .ok (("Semester", .str semester) ::
      noFilter.map (fun f => if f.1 = "CourseNo" then (f.1, .str courseNo) else f) ++
      ("Language", .str language) ::
      if onlyIntensive then [("OnlyIntensive", .int 1)] else [])

/-- The loop of `_call` with some attempts left and the last error. -/
def callFrom (path : String) (replies : ℕ → Reply) :
    ℕ → String → Except SweepError JsonValue
  | 0, error => .error (.catalogFetch s!"{path}: {error} after {attempts} attempts")
  | left + 1, _ =>
    match replies (attempts - (left + 1)) with
    | .transportError name => callFrom path replies left name
    | .raised exception => .error (.client exception)
    | .response status json =>
      if status = 429 ∨ 500 ≤ status then callFrom path replies left s!"HTTP {status}"
      else if status ≠ 200 then .error (.catalogFetch s!"{path}: HTTP {status}")
      else match json with
        | some value => .ok value
        | none => .error (.catalogFetch s!"{path}: the answer is not JSON")

/-- `_call`: the JSON answer to one request. -/
def call (path : String) (replies : ℕ → Reply) : Except SweepError JsonValue :=
  callFrom path replies attempts ""

/-- The fields kept of a row. -/
def courseFields : JsonValue → JsonValue
  | .dict members => .dict (fields.map fun k => (k, getField members k))
  | raw => raw

section Sweep

variable (upper : String → String) (semester language : String)

/-- The upper-cased number of a row. -/
def number : JsonValue → List Char
  | .dict members =>
    match getField members "CourseNo" with
    | .str text => (upper text).toList
    | _ => []
  | _ => []

/-- Whether `_course_row` can read a row. -/
def readable (stem : List Char) : JsonValue → Bool
  | .dict members =>
    (requiredText.all fun k => isText (getField members k)) &&
      (optionalText.all fun k => isOptionalText (getField members k)) &&
      isOptionalInt (getField members "ChooseStudent") &&
      (match getField members "Semester" with
        | .str text => decide (text = semester)
        | _ => false) &&
      stem.isPrefixOf (number upper (.dict members))
  | _ => false

/-- `_course_row`. -/
def courseRow (stem : List Char) (raw : JsonValue) : Except SweepError JsonValue :=
  if readable upper semester stem raw then .ok (courseFields raw)
  else
    let asked := if stem = [] then "intensive" else String.ofList stem
    .error (.catalogFetch s!"courses {semester} {asked}: an unreadable row")

/-- `_courses`. -/
def courses (stem : List Char) (onlyIntensive : Bool) (site : Site) :
    Except SweepError (List JsonValue) := do
  let body ← courseQuery semester language (String.ofList stem) onlyIntensive
  let rows ← call "courses" (site body)
  match rows with
  | .list rows => rows.mapM (courseRow upper semester stem)
  | _ => .error (.catalogFetch s!"courses {semester}: the answer is not a list")

/-! ### Lanes -/

/-- A lane of `_sweep`. -/
inductive Lane
  /-- Before its next prefix. -/
  | idle
  /-- Its request for a prefix is under way. -/
  | requesting (stem : List Char)
  /-- It has found no further prefix. -/
  | finished
  | failed
  | cancelled
  deriving DecidableEq, Repr

/-- A sweep under way. -/
structure SweepState where
  /-- What the iterator still holds. -/
  pending : List (List Char)
  rows : List JsonValue
  /-- What the task group has caught, in order. -/
  failures : List SweepError
  lane : Fin lanes → Lane

/-- `_sweep` with its lanes created. -/
def start : SweepState := ⟨allPrefixes, [], [], fun _ => .idle⟩

/-- What happens next. -/
inductive Label
  | next (i : Fin lanes)
  | answer (i : Fin lanes) (site : Site)
  | cancel (i : Fin lanes)

/-- A lane goes over to a state of its own. -/
def SweepState.turn (s : SweepState) (i : Fin lanes) (lane : Lane) : SweepState :=
  { s with lane := Function.update s.lane i lane }

/-- One step of a sweep. -/
def step (s : SweepState) : Label → Option SweepState
  | .next i =>
    match s.lane i with
    | .idle =>
      match s.pending with
      | [] => some (s.turn i .finished)
      | stem :: pending => some ({ s with pending }.turn i (.requesting stem))
    | _ => none
  | .answer i site =>
    match s.lane i with
    | .requesting stem =>
      match courses upper semester language stem false site with
      | .ok rows => some ({ s with rows := s.rows ++ rows }.turn i .idle)
      | .error error => some ({ s with failures := s.failures ++ [error] }.turn i .failed)
    | _ => none
  | .cancel i =>
    -- The task group cancels the other lanes once one has failed.
    if s.failures.isEmpty then none
    else match s.lane i with
      | .idle | .requesting _ => some (s.turn i .cancelled)
      | _ => none

/-- Whether a lane has ended. -/
def Lane.ended : Lane → Bool
  | .idle | .requesting _ => false
  | _ => true

/-- What `_sweep` raises or returns once all its lanes have ended. -/
def SweepState.result (s : SweepState) : Option (Except SweepError (List JsonValue)) :=
  if ∀ i, (s.lane i).ended = true then
    match s.failures with
    | [] => some (.ok s.rows)
    | error :: _ => some (.error error)
  else none

/-- The answer to a prefix is the list of the rows that start with it, each once. -/
def Truthful (school : List JsonValue) (s : SweepState) : Label → Prop
  | .answer i site => ∀ stem body json, s.lane i = .requesting stem →
    courseQuery semester language (String.ofList stem) false = .ok body →
    call "courses" (site body) = .ok json →
    ∃ rows, json = .list rows ∧
      rows.Perm (school.filter fun raw => stem.isPrefixOf (number upper raw))
  | _ => True

/-- A request that comes to its end here finally fails. -/
def RequestFails (s : SweepState) : Label → Prop
  | .answer i site => ∃ stem error, s.lane i = .requesting stem ∧
    courses upper semester language stem false site = .error error
  | _ => False

/-! ### The prefixes part the numbers -/

theorem prefixes_apart : allPrefixes.Pairwise Apart :=
  flatMap_splitPrefix_apart (by decide) fun c _ => splitPrefix_apart (by decide) ([] ++ [c])

/-- At least three characters, all of them A–Z or 0–9. -/
def wellNumbered (word : List Char) : Bool :=
  decide (3 ≤ word.length) && word.all fun c => c.isUpper || c.isDigit

theorem mem_alnum {c : Char} (h : (c.isUpper || c.isDigit) = true) : c ∈ alnum := by
  have hall : ∀ n < 128, ((Char.ofNat n).isUpper || (Char.ofNat n).isDigit) = true →
      Char.ofNat n ∈ alnum := by decide
  have hsmall : c.toNat < 128 := by
    rw [Bool.or_eq_true] at h
    rcases h with h | h
    · have h : c.val ≥ 'A'.val ∧ c.val ≤ 'Z'.val := of_decide_eq_true h
      exact Nat.lt_of_le_of_lt (UInt32.le_iff_toNat_le.mp h.2) (by decide)
    · simp only [Char.isDigit, Bool.and_eq_true, decide_eq_true_eq] at h
      exact Nat.lt_of_le_of_lt (UInt32.le_iff_toNat_le.mp h.2) (by decide)
  have hc := hall c.toNat hsmall
  rw [Char.ofNat_toNat] at hc
  exact hc h

/-- A well-formed number starts with one of the prefixes. -/
theorem some_prefix_of_wellNumbered {word : List Char} (h : wellNumbered word = true) :
    allPrefixes.any (·.isPrefixOf word) = true := by
  rw [wellNumbered, Bool.and_eq_true, decide_eq_true_eq, List.all_eq_true] at h
  obtain ⟨hlen, hchars⟩ := h
  have hmem : ∀ c ∈ word, c ∈ alnum := fun c hc => mem_alnum (hchars c hc)
  have hlong : ∀ q ∈ split, q.length < word.length := by
    have hshort : ∀ q ∈ split, q.length < 3 := by decide
    exact fun q hq => (hshort q hq).trans_le hlen
  obtain ⟨c, hc, hfirst⟩ := exists_longer (List.nil_prefix (l := word)) (by simp; omega)
  obtain ⟨q, hq, hqw⟩ := exists_splitPrefix hmem hlong hfirst
  refine List.any_eq_true.mpr ⟨q, ?_, List.isPrefixOf_iff_prefix.mpr hqw⟩
  exact List.mem_flatMap.mpr ⟨c, hmem c hc, hq⟩

/-! ### Requests of a truthful school -/

section Answers

variable {upper semester language}

/-- Rows that can all be read are kept with their fields. -/
theorem mapM_courseRow {stem : List Char} {raws rows : List JsonValue}
    (h : raws.mapM (courseRow upper semester stem) = .ok rows) : rows = raws.map courseFields := by
  induction raws generalizing rows with
  | nil =>
    rw [List.mapM_nil] at h
    exact (Except.ok.inj h).symm
  | cons raw raws ih =>
    rw [List.mapM_cons] at h
    cases hrow : courseRow upper semester stem raw with
    | error e => simp [hrow, bind, Except.bind] at h
    | ok row =>
      cases hrest : raws.mapM (courseRow upper semester stem) with
      | error e => simp [hrow, hrest, bind, Except.bind] at h
      | ok rest =>
        simp only [hrow, hrest, bind, Except.bind, pure, Except.pure, Except.ok.injEq] at h
        have hfields : row = courseFields raw := by
          rw [courseRow] at hrow
          split at hrow
          · exact (Except.ok.inj hrow).symm
          · cases hrow
        rw [← h, ih hrest, hfields, List.map_cons]

/-- The rows a truthful answer to a prefix has. -/
def answerTo (upper : String → String) (school : List JsonValue) (stem : List Char) :
    List JsonValue :=
  (school.filter fun raw => stem.isPrefixOf (number upper raw)).map courseFields

theorem courses_perm {school : List JsonValue} {s : SweepState} {i : Fin lanes} {site : Site}
    {stem : List Char} {rows : List JsonValue} (hlane : s.lane i = .requesting stem)
    (htrue : Truthful upper semester language school s (.answer i site))
    (h : courses upper semester language stem false site = .ok rows) :
    rows.Perm (answerTo upper school stem) := by
  rw [courses] at h
  cases hbody : courseQuery semester language (String.ofList stem) false with
  | error e => simp [hbody, bind, Except.bind] at h
  | ok body =>
    cases hjson : call "courses" (site body) with
    | error e => simp [hbody, hjson, bind, Except.bind] at h
    | ok json =>
      -- The school's answer is the rows in some order, and each is kept as it is read.
      obtain ⟨raws, rfl, hperm⟩ := htrue stem body json hlane hbody hjson
      simp only [hbody, hjson, bind, Except.bind] at h
      rw [mapM_courseRow h]
      exact hperm.map courseFields

/-- The fields kept of a row keep its number. -/
theorem number_courseFields (raw : JsonValue) :
    number upper (courseFields raw) = number upper raw := by
  cases raw with
  | dict members =>
    have hget : getField (fields.map fun k => (k, getField members k)) "CourseNo" =
        getField members "CourseNo" := rfl
    simp only [courseFields, number, hget]
  | _ => rfl

end Answers

/-! ### What one step does -/

/-- The steps of a sweep. -/
inductive Turns (s : SweepState) : Label → SweepState → Prop
  | finishes (i : Fin lanes) (hlane : s.lane i = .idle) (hpending : s.pending = []) :
      Turns s (.next i) (s.turn i .finished)
  | takes (i : Fin lanes) (stem : List Char) (pending : List (List Char))
      (hlane : s.lane i = .idle) (hpending : s.pending = stem :: pending) :
      Turns s (.next i) ({ s with pending }.turn i (.requesting stem))
  | succeeds (i : Fin lanes) (site : Site) (stem : List Char) (rows : List JsonValue)
      (hlane : s.lane i = .requesting stem)
      (hrows : courses upper semester language stem false site = .ok rows) :
      Turns s (.answer i site) ({ s with rows := s.rows ++ rows }.turn i .idle)
  | fails (i : Fin lanes) (site : Site) (stem : List Char) (error : SweepError)
      (hlane : s.lane i = .requesting stem)
      (herror : courses upper semester language stem false site = .error error) :
      Turns s (.answer i site) ({ s with failures := s.failures ++ [error] }.turn i .failed)
  | cancels (i : Fin lanes) (hlane : (s.lane i).ended = false) (hfailed : s.failures ≠ []) :
      Turns s (.cancel i) (s.turn i .cancelled)

section Steps

variable {upper semester language} {s t : SweepState} {l : Label}

theorem step_turns (h : step upper semester language s l = some t) :
    Turns upper semester language s l t := by
  cases l with
  | next i =>
    rw [step] at h
    split at h
    next hlane =>
      split at h
      next hpending =>
        obtain rfl := Option.some.inj h
        exact .finishes i hlane hpending
      next stem pending hpending =>
        obtain rfl := Option.some.inj h
        exact .takes i stem pending hlane hpending
    next => cases h
  | answer i site =>
    rw [step] at h
    split at h
    next stem hlane =>
      split at h
      next rows hrows =>
        obtain rfl := Option.some.inj h
        exact .succeeds i site stem rows hlane hrows
      next error herror =>
        obtain rfl := Option.some.inj h
        exact .fails i site stem error hlane herror
    next => cases h
  | cancel i =>
    rw [step] at h
    split at h
    next => cases h
    next hfailed =>
      have hne : s.failures ≠ [] := fun hnil => hfailed (List.isEmpty_iff.mpr hnil)
      split at h
      next hlane =>
        obtain rfl := Option.some.inj h
        exact .cancels i (by rw [hlane]; rfl) hne
      next hlane =>
        obtain rfl := Option.some.inj h
        exact .cancels i (by rw [hlane]; rfl) hne
      next => cases h

@[simp]
theorem turn_lane_self (i : Fin lanes) (lane : Lane) : (s.turn i lane).lane i = lane :=
  Function.update_self ..

theorem turn_lane_of_ne {i j : Fin lanes} (lane : Lane) (h : j ≠ i) :
    (s.turn i lane).lane j = s.lane j :=
  Function.update_of_ne h ..

/-- A sum over the lanes after one of them turns. -/
theorem sum_turn {M : Type*} [AddCommMonoid M] (weight : Lane → M) (s : SweepState)
    (i : Fin lanes) (lane : Lane) :
    ∑ j, weight ((s.turn i lane).lane j) + weight (s.lane i) =
      ∑ j, weight (s.lane j) + weight lane := by
  have hothers : ∑ j ∈ Finset.univ.erase i, weight ((s.turn i lane).lane j) =
      ∑ j ∈ Finset.univ.erase i, weight (s.lane j) :=
    Finset.sum_congr rfl fun j hj => by rw [turn_lane_of_ne lane (Finset.ne_of_mem_erase hj)]
  rw [← Finset.add_sum_erase _ _ (Finset.mem_univ i), turn_lane_self, hothers,
    ← Finset.add_sum_erase Finset.univ (fun j => weight (s.lane j)) (Finset.mem_univ i)]
  rw [add_comm (weight lane), add_comm (weight (s.lane i)), add_right_comm]

/-- How many steps a lane can take on its own. -/
def Lane.left : Lane → ℕ
  | .idle => 1
  | .requesting _ => 2
  | .finished | .failed | .cancelled => 0

/-- A bound on the steps a sweep has left. -/
def SweepState.left (s : SweepState) : ℕ := 2 * s.pending.length + ∑ i, (s.lane i).left

theorem left_turn (s : SweepState) (i : Fin lanes) (lane : Lane) :
    (s.turn i lane).left + (s.lane i).left = s.left + lane.left := by
  have hsum := sum_turn Lane.left s i lane
  show 2 * s.pending.length + _ + _ = 2 * s.pending.length + _ + _
  omega

theorem left_step (h : step upper semester language s l = some t) : t.left < s.left := by
  cases step_turns h with
  | finishes i hlane hpending =>
    have hleft : _ + Lane.left .idle = s.left + Lane.left .finished := hlane ▸ left_turn s i _
    rw [Lane.left, Lane.left] at hleft
    omega
  | takes i stem pending hlane hpending =>
    have hleft : _ + (s.lane i).left = (2 * pending.length + ∑ j, (s.lane j).left) + 2 :=
      left_turn { s with pending } i (.requesting stem)
    have hlonger : s.left = 2 * (pending.length + 1) + ∑ j, (s.lane j).left := by
      rw [SweepState.left, hpending, List.length_cons]
    rw [hlane, Lane.left] at hleft
    omega
  | succeeds i site stem rows hlane hrows =>
    have hleft : _ + (s.lane i).left = s.left + 1 :=
      left_turn { s with rows := s.rows ++ rows } i .idle
    rw [hlane, Lane.left] at hleft
    omega
  | fails i site stem error hlane herror =>
    have hleft : _ + (s.lane i).left = s.left + 0 :=
      left_turn { s with failures := s.failures ++ [error] } i .failed
    rw [hlane, Lane.left] at hleft
    omega
  | cancels i hlane hfailed =>
    have hleft : _ = s.left + 0 := left_turn s i .cancelled
    have hpos : 0 < (s.lane i).left := by
      revert hlane
      cases s.lane i <;> simp [Lane.ended, Lane.left]
    omega

/-- A sweep takes at most so many steps. -/
theorem length_add_left {ok : SweepState → Label → Prop} {labels : List Label}
    (hrun : Run (step upper semester language) ok start labels s) :
    labels.length + s.left ≤ start.left := by
  induction hrun with
  | nil => simp
  | snoc _ _ hstep ih =>
    have hlt := left_step hstep
    rw [List.length_append, List.length_singleton]
    omega

theorem start_left : start.left = 2 * allPrefixes.length + lanes := by
  rw [SweepState.left, start]
  simp [Lane.left]

/-- While a lane has not ended, one can go on, whatever the school replies to it. -/
theorem exists_step (h : s.result = none) :
    ∃ i, (∃ t, step upper semester language s (.next i) = some t) ∨
      ∀ site, ∃ t, step upper semester language s (.answer i site) = some t := by
  have hopen : ¬∀ i, (s.lane i).ended = true := by
    intro hall
    rw [SweepState.result, if_pos hall] at h
    split at h <;> cases h
  obtain ⟨i, hi⟩ := not_forall.mp hopen
  refine ⟨i, ?_⟩
  cases hlane : s.lane i with
  | idle =>
    left
    cases hpending : s.pending with
    | nil => simp [step, hlane, hpending]
    | cons stem pending => simp [step, hlane, hpending]
  | requesting stem =>
    right
    intro site
    cases hrows : courses upper semester language stem false site with
    | ok rows => simp [step, hlane, hrows]
    | error error => simp [step, hlane, hrows]
  | finished | failed | cancelled =>
    rw [hlane] at hi
    exact absurd rfl hi

/-- The sweep has caught a failure once a request has finally failed. -/
theorem failures_step (h : step upper semester language s l = some t) :
    t.failures ≠ [] ↔ s.failures ≠ [] ∨ RequestFails upper semester language s l := by
  cases step_turns h with
  | finishes | takes | cancels => simp [SweepState.turn, RequestFails]
  | succeeds i site stem rows hlane hrows =>
    simp [SweepState.turn, RequestFails, hlane, hrows]
  | fails i site stem error hlane herror =>
    simp [SweepState.turn, RequestFails, hlane, herror]

/-! ### What a sweep of a truthful school has -/

/-- The prefix a lane has taken and has no answer to. -/
def Lane.taken : Lane → Multiset (List Char)
  | .requesting stem => {stem}
  | _ => 0

/-- Each prefix is still to be taken, with a lane, or answered; the rows are the answers. -/
def Counted (upper : String → String) (school : List JsonValue) (s : SweepState) : Prop :=
  ∃ answered : List (List Char),
    (answered : Multiset (List Char)) + ∑ i, (s.lane i).taken + s.pending = allPrefixes ∧
      s.rows.Perm (answered.flatMap (answerTo upper school))

/-- What holds as long as no request has failed. -/
structure SweepInv (upper : String → String) (school : List JsonValue) (s : SweepState) :
    Prop where
  counted : s.failures = [] → Counted upper school s
  finished : ∀ i, s.lane i = .finished → s.pending = []
  broken : ∀ i, s.lane i = .failed ∨ s.lane i = .cancelled → s.failures ≠ []

theorem sweepInv_start (school : List JsonValue) : SweepInv upper school start where
  counted := fun _ => ⟨[], by simp [start, Lane.taken], by simp [start]⟩
  finished := fun _ h => by cases h
  broken := fun _ h => by rcases h with h | h <;> cases h

/-- The count of the prefixes, step by step. -/
theorem counted_step {school : List JsonValue} (hinv : SweepInv upper school s)
    (htrue : Truthful upper semester language school s l)
    (h : step upper semester language s l = some t) (hnone : t.failures = []) :
    Counted upper school t := by
  cases step_turns h with
  | finishes i hlane hpending =>
    obtain ⟨answered, hcount, hrows⟩ := hinv.counted hnone
    have hsum : _ + (s.lane i).taken = _ + 0 := sum_turn Lane.taken s i .finished
    rw [hlane, Lane.taken, add_zero, add_zero] at hsum
    · exact ⟨answered, by rw [hsum]; exact hcount, hrows⟩
    · simp
  -- The prefix goes from the iterator to the lane,
  | takes i stem pending hlane hpending =>
    obtain ⟨answered, hcount, hrows⟩ := hinv.counted hnone
    have hsum : _ + (s.lane i).taken = _ + {stem} :=
      sum_turn Lane.taken { s with pending } i (.requesting stem)
    rw [hlane, Lane.taken, add_zero] at hsum
    · refine ⟨answered, ?_, hrows⟩
      rw [hsum, ← hcount, hpending, ← Multiset.cons_coe, ← Multiset.singleton_add]
      show _ + (_ + {stem}) + _ = _
      simp only [add_assoc]
      rfl
    · simp
  -- and from the lane to those answered.
  | succeeds i site stem rows hlane hrows' =>
    obtain ⟨answered, hcount, hrows⟩ := hinv.counted hnone
    have hsum : _ + (s.lane i).taken = _ + 0 :=
      sum_turn Lane.taken { s with rows := s.rows ++ rows } i .idle
    rw [hlane, Lane.taken, add_zero] at hsum
    refine ⟨answered ++ [stem], ?_, ?_⟩
    · rw [← hcount, ← hsum, ← Multiset.coe_add, Multiset.coe_singleton]
      simp only [add_assoc, add_left_comm]
      rfl
    · rw [List.flatMap_append, List.flatMap_singleton]
      exact hrows.append (courses_perm hlane htrue hrows')
  | fails i site stem error hlane herror => simp [SweepState.turn] at hnone
  | cancels i hlane hfailed => exact absurd hnone hfailed

theorem sweepInv_step {school : List JsonValue} (hinv : SweepInv upper school s)
    (htrue : Truthful upper semester language school s l)
    (h : step upper semester language s l = some t) : SweepInv upper school t := by
  refine ⟨counted_step hinv htrue h, ?_, ?_⟩
  · intro j hj
    cases step_turns h with
    | finishes i hlane hpending => exact hpending
    | takes i stem pending hlane hpending =>
      rcases update_cases hj with ⟨-, hne⟩ | ⟨-, hj⟩
      · cases hne
      · exact absurd (hpending.symm.trans (hinv.finished j hj))
          (List.cons_ne_nil stem pending)
    | succeeds | fails | cancels =>
      rcases update_cases hj with ⟨-, hne⟩ | ⟨-, hj⟩
      · cases hne
      · exact hinv.finished j hj
  · intro j hj
    have hfailed : s.lane j = .failed ∨ s.lane j = .cancelled → t.failures ≠ [] := fun hold =>
      (failures_step h).mpr (Or.inl (hinv.broken j hold))
    cases step_turns h with
    | finishes | takes | succeeds =>
      refine hfailed (hj.imp ?_ ?_)
      all_goals
        intro hj
        rcases update_cases hj with ⟨-, hne⟩ | ⟨-, hj⟩
        · cases hne
        · exact hj
    | fails => exact List.concat_ne_nil _ _
    | cancels i hlane hfailures => exact hfailures

theorem sweepInv {school : List JsonValue} {labels : List Label}
    (hrun : Run (step upper semester language) (Truthful upper semester language school)
      start labels s) : SweepInv upper school s :=
  hrun.invariant (SweepInv upper school) (sweepInv_start school) fun _ _ _ hinv htrue h =>
    sweepInv_step hinv htrue h

/-- A sweep that has ended without a failure has the answers to all the prefixes. -/
theorem rows_perm {school : List JsonValue} (hinv : SweepInv upper school s)
    (hended : ∀ i, (s.lane i).ended = true) (hnone : s.failures = []) :
    s.rows.Perm (allPrefixes.flatMap (answerTo upper school)) := by
  have hfinished : ∀ i, s.lane i = .finished := by
    intro i
    have hi := hended i
    have hbroken := hinv.broken i
    cases hlane : s.lane i with
    | finished => rfl
    | failed => exact absurd hnone (hbroken (Or.inl hlane))
    | cancelled => exact absurd hnone (hbroken (Or.inr hlane))
    | idle | requesting => simp [hlane, Lane.ended] at hi
  obtain ⟨answered, hcount, hrows⟩ := hinv.counted hnone
  have htaken : ∑ i, (s.lane i).taken = 0 :=
    Finset.sum_eq_zero fun i _ => by rw [hfinished i]; rfl
  rw [htaken, hinv.finished ⟨0, by decide⟩ (hfinished _), add_zero, Multiset.coe_nil, add_zero,
    Multiset.coe_eq_coe] at hcount
  exact hrows.trans (hcount.flatMap_right _)

/-- The answers to all the prefixes are the rows that start with one, each once. -/
theorem flatMap_answerTo_perm (school : List JsonValue) :
    (allPrefixes.flatMap (answerTo upper school)).Perm
      ((school.filter fun raw => allPrefixes.any (·.isPrefixOf (number upper raw))).map
        courseFields) := by
  have hparts : (allPrefixes.flatMap fun p =>
      school.filter fun raw => p.isPrefixOf (number upper raw)).Perm _ :=
    perm_flatMap_filter prefixes_apart school
  have hmap := hparts.map courseFields
  rw [List.map_flatMap] at hmap
  exact hmap

end Steps

/-- A sweep takes so many steps at most and never gets stuck. If a request finally fails it raises.
If none does and the school is truthful, it returns every row of the school that starts with a
prefix, once, and all those with a well-formed number are among them. -/
theorem sweep_exact {school : List JsonValue} {labels : List Label} {s : SweepState}
    (hrun : Run (step upper semester language) (Truthful upper semester language school)
      start labels s) :
    labels.length ≤ 2 * allPrefixes.length + lanes ∧
      (s.result = none → ∃ i, (∃ t, step upper semester language s (.next i) = some t) ∨
        ∀ site, ∃ t, step upper semester language s (.answer i site) = some t) ∧
      ∀ answer, s.result = some answer →
        (Ever (step upper semester language) (RequestFails upper semester language) start labels →
          ∃ error, answer = .error error) ∧
        (¬Ever (step upper semester language) (RequestFails upper semester language) start
            labels →
          ∃ rows, answer = .ok rows ∧
            rows.Perm ((school.filter fun raw =>
              allPrefixes.any (·.isPrefixOf (number upper raw))).map courseFields) ∧
            (rows.filter fun row => wellNumbered (number upper row)).Perm
              ((school.filter fun raw => wellNumbered (number upper raw)).map courseFields)) := by
  refine ⟨?_, exists_step, ?_⟩
  · have hlen := length_add_left hrun
    rw [start_left] at hlen
    omega
  intro answer hanswer
  have hever := hrun.ever_iff (RequestFails upper semester language)
    (fun s => s.failures ≠ []) (by simp [start]) fun t l u h => failures_step h
  have hended : ∀ i, (s.lane i).ended = true := by
    by_contra hopen
    rw [SweepState.result, if_neg hopen] at hanswer
    cases hanswer
  rw [SweepState.result, if_pos hended] at hanswer
  constructor
  · intro hfails
    have hfailed := hever.mpr hfails
    cases hfailures : s.failures with
    | nil => exact absurd hfailures hfailed
    | cons error _ =>
      rw [hfailures] at hanswer
      exact ⟨error, (Option.some.inj hanswer).symm⟩
  · intro hnever
    have hnone : s.failures = [] := by
      by_contra hfailed
      exact hnever (hever.mp hfailed)
    rw [hnone] at hanswer
    have hperm := (rows_perm (sweepInv hrun) hended hnone).trans (flatMap_answerTo_perm school)
    refine ⟨s.rows, (Option.some.inj hanswer).symm, hperm, ?_⟩
    refine (hperm.filter _).trans (List.Perm.of_eq ?_)
    rw [List.filter_map, List.filter_filter]
    congr 1
    refine List.filter_congr fun raw _ => ?_
    rw [Function.comp_apply, number_courseFields]
    cases hwell : wellNumbered (number upper raw) with
    | true => rw [some_prefix_of_wellNumbered hwell, Bool.true_and]
    | false => rw [Bool.false_and]

end Sweep

/-- A school with one course. -/
def oneCourse : List JsonValue :=
  [.dict [("Semester", .str "1151"), ("CourseNo", .str "CS1001"), ("CourseName", .str "程式設計"),
    ("CourseTeacher", .str "王"), ("CreditPoint", .str "3"), ("Node", .str "M1")]]

/-- A school that answers every query with the rows that start with the prefix asked for. -/
def honestSite (school : List JsonValue) : Site := fun body _ =>
  let asked := match getField body "CourseNo" with
    | .str text => text.toList
    | _ => []
  .response 200 (some (.list (school.filter fun raw => asked.isPrefixOf (number id raw))))

/-- One lane answers for all the prefixes before the others find none left. -/
def oneLane (site : Site) : List Label :=
  (allPrefixes.flatMap fun _ => [.next ⟨0, by decide⟩, .answer ⟨0, by decide⟩ site]) ++
    [.next ⟨0, by decide⟩, .next ⟨1, by decide⟩, .next ⟨2, by decide⟩]

theorem truthful_honestSite (school : List JsonValue) (semester language : String)
    (s : SweepState) (i : Fin lanes) :
    Truthful id semester language school s (.answer i (honestSite school)) := by
  intro stem body json _ hbody hjson
  have hasked : getField body "CourseNo" = .str (String.ofList stem) := by
    rw [courseQuery] at hbody
    split at hbody
    · cases hbody
    · rw [← Except.ok.inj hbody]
      rfl
  refine ⟨_, ?_, List.Perm.refl _⟩
  rw [← Except.ok.inj hjson]
  simp only [hasked, String.toList_ofList]

theorem sweep_exact_of_oneLane :
    ∃ s : SweepState, ∃ rows : List JsonValue, s.result = some (.ok rows) ∧
      (rows.filter fun row => wellNumbered (number id row)).Perm
        ((oneCourse.filter fun raw => wellNumbered (number id raw)).map courseFields) := by
  have hexec : ((exec (step id "1151" "zh") start (oneLane (honestSite oneCourse))).map
      fun s => (s.failures.isEmpty, decide (∀ i, (s.lane i).ended = true))) =
      some (true, true) := by
    decide +kernel
  obtain ⟨s, hs, hends⟩ := Option.map_eq_some_iff.mp hexec
  rw [Prod.mk.injEq, List.isEmpty_iff, decide_eq_true_eq] at hends
  obtain ⟨hnone, hended⟩ := hends
  have hresult : s.result = some (.ok s.rows) := by rw [SweepState.result, if_pos hended, hnone]
  have hrun : Run (step id "1151" "zh") (Truthful id "1151" "zh" oneCourse) start
      (oneLane (honestSite oneCourse)) s := by
    refine run_of_exec_of_forall hs fun l hl t => ?_
    simp only [oneLane, List.mem_append, List.mem_flatMap, List.mem_cons, List.not_mem_nil,
      or_false] at hl
    rcases hl with ⟨_, _, rfl | rfl⟩ | rfl | rfl | rfl
    · trivial
    · exact truthful_honestSite oneCourse "1151" "zh" t _
    all_goals trivial
  have hnever : ¬Ever (step id "1151" "zh") (RequestFails id "1151" "zh") start
      (oneLane (honestSite oneCourse)) := by
    rw [← hrun.ever_iff _ (fun s => s.failures ≠ []) (by simp [start]) fun t l u h =>
      failures_step h]
    exact not_not.mpr hnone
  obtain ⟨rows, hrows, _, hperm⟩ := ((sweep_exact id "1151" "zh" hrun).2.2 _ hresult).2 hnever
  obtain rfl := Except.ok.inj hrows
  exact ⟨s, s.rows, hresult, hperm⟩

end TigerDuck.CourseCatalog
