import TigerDuck.Json.Value
import TigerDuck.Transition.TaskGroup

/-!
# Submission probes

`fetch_submission_status` of `server/syncjobs/moodle_client.py` from where the user id is known:
one probe for each assignment, all of them in a task group. A probe stores its answer in the step
it ends in. An error is known by its class; of the classes outside the handlers' tables one stands
for all.

- `probe_error_iff`, `probe_ok_iff`: what leaves a probe.
- `fetch_exact`: what the call returns or raises, whatever becomes of the probes.
-/

namespace TigerDuck.SyncJobs.Probes

open Transition

/-! ### Errors -/

/-- A class of `Exception`. -/
inductive ErrorClass
  | moodleClientError
  | moodleTokenInvalid
  | moodleRateLimited
  | moodleUnreachable
  | moodleNoCourseAccess
  | ssoUnavailable
  | moodleUnavailable
  | moodleRefused
  /-- `httpx.HTTPError` and its subclasses. -/
  | httpError
  /-- `ValueError` and its subclasses, the JSON and text decoders' among them. -/
  | valueError
  | overflowError
  /-- Any other. -/
  | other
  deriving DecidableEq, Repr

/-- `issubclass`. -/
def ErrorClass.isSubclass (c kind : ErrorClass) : Bool :=
  decide (c = kind) ||
    match kind with
    | .moodleUnreachable => decide (c = .moodleNoCourseAccess)
    | .moodleClientError => c ∈ [.moodleTokenInvalid, .moodleRateLimited, .moodleUnreachable,
        .moodleNoCourseAccess, .ssoUnavailable, .moodleUnavailable, .moodleRefused]
    | _ => false

/-- An exception: its class and its text. -/
structure Error where
  kind : ErrorClass
  text : String
  deriving DecidableEq, Repr

/-- `isinstance`. -/
def Error.isInstance (e : Error) (kind : ErrorClass) : Bool := e.kind.isSubclass kind

/-- `_PROBE_ESCALATIONS`, highest priority first. -/
def probeEscalations : List (ErrorClass × String) :=
  [(.moodleTokenInvalid, "invalidtoken"), (.moodleRateLimited, "http_429"),
    (.moodleUnreachable, "submission_probe_unreachable")]

/-- `_PROBE_ESCALATES`, as a condition on an error. -/
def Error.escalates (e : Error) : Bool := probeEscalations.any fun row => e.isInstance row.1

/-- `_PROBE_SKIPS`, as a condition on an error. -/
def Error.skips (e : Error) : Bool :=
  [.httpError, .valueError, .overflowError].any fun kind => e.isInstance kind

/-! ### One answer -/

/-- A `datetime` in UTC, in microseconds from 1970. -/
abbrev Instant := ℤ

structure FetchedSubmission where
  moodleAssignmentId : ℤ
  isSubmitted : Bool
  submittedAt : Option Instant
  submissionsEnabled : Bool
  locked : Bool
  extensionDueAt : Option Instant
  deriving DecidableEq, Repr

/-- Whether a value is that text. -/
def isStr (text : String) : JsonValue → Bool
  | .str t => decide (t = text)
  | _ => false

/-- `isinstance(value, (int, float))`, the number. -/
def number : JsonValue → Option JsonFloat
  | .int n => some (.finite n)
  | .float x => some x
  | .bool b => some (.finite (if b then 1 else 0))
  | _ => none

/-- `value <= 0`. -/
def notPositive : JsonFloat → Bool
  | .finite q => decide (q ≤ 0)
  | .infinity negative => negative
  | .nan => false

/-- `value < 0`. -/
def isNegative : JsonFloat → Bool
  | .finite q => decide (q < 0)
  | .infinity negative => negative
  | .nan => false

/-- Whether `extensionduedate` is null, or a number that is not negative. -/
def readableExtension : JsonValue → Bool
  | .null => true
  | .int n => !isNegative (.finite n)
  | .float x => !isNegative x
  | _ => false

/-- Whether an attempt is one that was submitted. -/
def isSubmitted : JsonValue → Bool
  | .dict attempt => isStr "submitted" (getField attempt "status")
  | _ => false

section Fetch

-- `datetime.fromtimestamp`, whose range depends on the platform.
variable (fromTimestamp : JsonFloat → Except Error Instant)

/-- `_ts`. -/
def ts (value : JsonValue) : Except Error (Option Instant) :=
  match number value with
  | some x => if notPositive x then .ok none else (fromTimestamp x).map some
  | none => .ok none

/-- The `timemodified` of a submitted attempt. -/
def timeModified : JsonValue → Except Error (Option Instant)
  | .dict attempt => ts fromTimestamp (getField attempt "timemodified")
  | _ => .ok none

/-- `_parse_submission_status`. -/
def parseSubmissionStatus (assignmentId : ℤ) (body : List (String × JsonValue)) :
    Except Error (Option FetchedSubmission) :=
  match getField body "lastattempt" with
  | .dict last =>
    let extension := getField last "extensionduedate"
    if readableExtension extension then do
      let submitted := [getField last "submission", getField last "teamsubmission"].find?
        isSubmitted
      let submittedAt ← match submitted with
        | some attempt => timeModified fromTimestamp attempt
        | none => .ok none
      let extensionDueAt ← ts fromTimestamp extension
      return some
        { moodleAssignmentId := assignmentId
          isSubmitted := submitted.isSome
          submittedAt
          submissionsEnabled := match getField last "submissionsenabled" with
            | .bool false => false
            | _ => true
          locked := match getField last "locked" with
            | .bool true => true
            | _ => false
          extensionDueAt }
    else .ok none
  | _ => .ok none

/-! ### One probe -/

/-- What comes of a probe's request. -/
inductive Reply
  /-- The client raised, a hook of the client's or a transport among others. -/
  | raised (e : Error)
  /-- A response, and what `response.json()` makes of it. -/
  | response (status : ℕ) (json : Except Error JsonValue)

/-- What a probe runs into: its reply, and what its two log calls raise. -/
structure Outcome where
  reply : Reply
  warning : Option Error
  error : Option Error

/-- The innermost `try` of `probe`. `none` is a plain `return`, or an answer with no attempt. -/
def readReply (assignmentId : ℤ) : Reply → Except Error (Option FetchedSubmission)
  | .raised e => .error e
  | .response status json =>
    if status = 429 then .error ⟨.moodleRateLimited, "http_429"⟩
    else if 400 ≤ status then .ok none
    else do
      match ← json with
      | .dict body =>
        if (body.lookup "exception").isSome then
          if isStr "invalidtoken" (getField body "errorcode") then
            .error ⟨.moodleTokenInvalid, "invalidtoken"⟩
          else .ok none
        else parseSubmissionStatus fromTimestamp assignmentId body
      | _ => .ok none

/-- `except _PROBE_SKIPS`: the probe returns, unless the log call raises. -/
def skipFailed (assignmentId : ℤ) (o : Outcome) : Except Error (Option FetchedSubmission) :=
  match readReply fromTimestamp assignmentId o.reply with
  | .ok parsed => .ok parsed
  | .error e =>
    if e.skips then
      match o.warning with
      | some e' => .error e'
      | none => .ok none
    else .error e

/-- `probe`: the answer it stores, or the error that leaves it. -/
def probe (assignmentId : ℤ) (o : Outcome) : Except Error (Option FetchedSubmission) :=
  match skipFailed fromTimestamp assignmentId o with
  | .ok parsed => .ok parsed
  | .error e =>
    if e.escalates then .error e
    else
      match o.error with
      | some _ => .ok none
      | none => .ok none

/-! ### The batch -/

/-- What `fetch_submission_status` comes to. -/
inductive FetchResult
  | returned (results : ℤ → Option FetchedSubmission)
  | raised (e : Error)
  /-- It raises an `ExceptionGroup`. -/
  | raisedGroup (members : List Error)

/-- The loop of the `except*` clause over the table. -/
def route (eg : List Error) : Error :=
  match probeEscalations.find? fun row => eg.any fun e => e.isInstance row.1 with
  | some (kind, code) => ⟨kind, code⟩
  | none => ⟨.moodleUnreachable, "submission_probe_unreachable"⟩

/-- `except* _PROBE_ESCALATES` of the group's errors. What the clause raises goes out as it is
unless members are left that it does not match; then both go out in a group. -/
def exceptStar (errors : List Error) : FetchResult :=
  let eg := errors.filter Error.escalates
  let rest := errors.filter fun e => !e.escalates
  if eg.isEmpty then .raisedGroup rest
  else if rest.isEmpty then .raised (route eg)
  else .raisedGroup (route eg :: rest)

/-- `results[assignment_id] = parsed` for each answer in turn. -/
def store (assignmentIds : List ℤ)
    (returned : List (Fin assignmentIds.length × Option FetchedSubmission)) :
    ℤ → Option FetchedSubmission :=
  returned.foldl
    (fun results r => match r.2 with
      | some parsed => Function.update results (assignmentIds.get r.1) (some parsed)
      | none => results)
    fun _ => none

/-- `fetch_submission_status` once all the probes have ended. -/
def fetchSubmissionStatus (assignmentIds : List ℤ)
    (g : TaskGroup (Fin assignmentIds.length) (Option FetchedSubmission) Error) :
    Option FetchResult :=
  if g.Ended then
    let results := store assignmentIds g.returned
    if g.errors.isEmpty then some (.returned results)
    else
      match exceptStar (g.errors.map Prod.snd) with
      -- `except (httpx.HTTPError, ValueError)`, which matches no group.
      | .raised e =>
        if e.isInstance .httpError || e.isInstance .valueError then some (.returned results)
        else some (.raised e)
      | other => some other
  else none

/-! ### What leaves a probe -/

/-- An error is raised in a probe's guarded part, or by the log call about one that is skipped. -/
inductive Raises (assignmentId : ℤ) (o : Outcome) : Error → Prop
  | reply (e : Error) (h : readReply fromTimestamp assignmentId o.reply = .error e) :
      Raises assignmentId o e
  | warning (e e' : Error) (h : readReply fromTimestamp assignmentId o.reply = .error e)
      (hskips : e.skips = true) (hwarning : o.warning = some e') : Raises assignmentId o e'

variable {fromTimestamp} {assignmentId : ℤ} {o : Outcome}

/-- The tables are disjoint. -/
theorem not_skips_of_escalates {e : Error} (h : e.escalates = true) : e.skips = false := by
  obtain ⟨kind, text⟩ := e
  have hall : ∀ kind : ErrorClass, Error.escalates ⟨kind, ""⟩ = true →
      Error.skips ⟨kind, ""⟩ = false := by
    intro kind
    cases kind <;> decide
  exact hall kind h

/-- What leaves a probe is an error of the table raised in it. -/
theorem probe_error_iff {e : Error} :
    probe fromTimestamp assignmentId o = .error e ↔
      Raises fromTimestamp assignmentId o e ∧ e.escalates = true := by
  unfold probe skipFailed
  constructor
  · intro h
    cases hreply : readReply fromTimestamp assignmentId o.reply with
    | ok parsed => simp [hreply] at h
    | error e₀ =>
      rw [hreply] at h
      cases hskips : e₀.skips with
      | true =>
        cases hwarning : o.warning with
        | none => simp [hskips, hwarning] at h
        | some e₁ =>
          simp only [hskips, hwarning, if_true] at h
          split at h
          next hesc =>
            obtain rfl := Except.error.inj h
            exact ⟨.warning e₀ e₁ hreply hskips hwarning, hesc⟩
          next => split at h <;> cases h
      | false =>
        simp only [hskips, Bool.false_eq_true, if_false] at h
        split at h
        next hesc =>
          obtain rfl := Except.error.inj h
          exact ⟨.reply e₀ hreply, hesc⟩
        next => split at h <;> cases h
  · rintro ⟨hraises, hesc⟩
    cases hraises with
    | reply _ hreply => simp [hreply, not_skips_of_escalates hesc, hesc]
    | warning e₀ _ hreply hskips hwarning => simp [hreply, hskips, hwarning, hesc]

/-- A probe stores what its reply is parsed to. -/
theorem probe_some_iff {parsed : FetchedSubmission} :
    probe fromTimestamp assignmentId o = .ok (some parsed) ↔
      readReply fromTimestamp assignmentId o.reply = .ok (some parsed) := by
  unfold probe skipFailed
  cases hreply : readReply fromTimestamp assignmentId o.reply with
  | ok p => rfl
  | error e =>
    -- After an error nothing is stored, whichever way the probe ends.
    refine ⟨fun h => ?_, fun h => by cases h⟩
    grind

/-! ### The batch -/

section Batch

variable {assignmentIds : List ℤ}
  {returned : List (Fin assignmentIds.length × Option FetchedSubmission)}

theorem store_append_some (i : Fin assignmentIds.length) (parsed : FetchedSubmission) :
    store assignmentIds (returned ++ [(i, some parsed)]) =
      Function.update (store assignmentIds returned) (assignmentIds.get i) (some parsed) := by
  rw [store, List.foldl_append]
  rfl

theorem store_append_none (i : Fin assignmentIds.length) :
    store assignmentIds (returned ++ [(i, none)]) = store assignmentIds returned := by
  rw [store, List.foldl_append]
  rfl

/-- The stored answers are those of probes for their assignments. -/
theorem store_some {id : ℤ} {parsed : FetchedSubmission}
    (h : store assignmentIds returned id = some parsed) :
    ∃ i, assignmentIds.get i = id ∧ (i, some parsed) ∈ returned := by
  induction returned using List.reverseRecOn with
  | nil => cases h
  | append_singleton returned r ih =>
    obtain ⟨i, answer⟩ := r
    cases answer with
    | none =>
      rw [store_append_none] at h
      obtain ⟨j, hj, hmem⟩ := ih h
      exact ⟨j, hj, List.mem_append_left _ hmem⟩
    | some p =>
      rw [store_append_some] at h
      rcases update_cases h with ⟨hid, hp⟩ | ⟨-, hold⟩
      · obtain rfl := Option.some.inj hp
        exact ⟨i, hid.symm, by simp⟩
      · obtain ⟨j, hj, hmem⟩ := ih hold
        exact ⟨j, hj, List.mem_append_left _ hmem⟩

/-- No probe's answer is lost: its assignment has an answer. -/
theorem isSome_store {i : Fin assignmentIds.length} {parsed : FetchedSubmission}
    (h : (i, some parsed) ∈ returned) :
    (store assignmentIds returned (assignmentIds.get i)).isSome = true := by
  induction returned using List.reverseRecOn with
  | nil => cases h
  | append_singleton returned r ih =>
    obtain ⟨j, answer⟩ := r
    rcases List.mem_append.mp h with hmem | hlast
    · cases answer with
      | none =>
        rw [store_append_none]
        exact ih hmem
      | some p =>
        rw [store_append_some]
        by_cases hid : assignmentIds.get i = assignmentIds.get j
        · rw [hid, Function.update_self]
          rfl
        · rw [Function.update_of_ne hid]
          exact ih hmem
    · obtain ⟨rfl, rfl⟩ := Prod.mk.inj (List.mem_singleton.mp hlast)
      rw [store_append_some, Function.update_self]
      rfl

/-- A group whose errors are all in the table goes out as the error the table puts first. -/
theorem exceptStar_eq {errors : List Error} (hne : errors ≠ [])
    (hall : ∀ e ∈ errors, e.escalates = true) : exceptStar errors = .raised (route errors) := by
  have heg : errors.filter Error.escalates = errors := List.filter_eq_self.mpr hall
  have hrest : (errors.filter fun e => !e.escalates) = [] :=
    List.filter_eq_nil_iff.mpr fun e he => by simp [hall e he]
  have hsome : errors.isEmpty = false := by
    rwa [Bool.eq_false_iff, Ne, List.isEmpty_iff]
  simp [exceptStar, heg, hrest, hsome]

/-- The table's order is that of the errors a batch goes out with. -/
theorem route_eq (errors : List Error) :
    route errors =
      if errors.any (·.isInstance .moodleTokenInvalid) then ⟨.moodleTokenInvalid, "invalidtoken"⟩
      else if errors.any (·.isInstance .moodleRateLimited) then ⟨.moodleRateLimited, "http_429"⟩
      else ⟨.moodleUnreachable, "submission_probe_unreachable"⟩ := by
  unfold route probeEscalations
  cases htoken : errors.any (·.isInstance .moodleTokenInvalid) with
  | true => simp [htoken]
  | false =>
    cases hrate : errors.any (·.isInstance .moodleRateLimited) with
    | true => simp [htoken, hrate]
    | false =>
      -- The last row and the line after the loop raise the same.
      cases hunreachable : errors.any (·.isInstance .moodleUnreachable) with
      | true => simp [htoken, hrate, hunreachable]
      | false => simp [htoken, hrate, hunreachable]

/-- An error of the table's that some probe raised before it came to its end. -/
def RaisedKind (fromTimestamp : JsonFloat → Except Error Instant) (assignmentIds : List ℤ)
    (outcome : Fin assignmentIds.length → Outcome)
    (labels : List (TaskLabel (Fin assignmentIds.length))) (kind : ErrorClass) : Prop :=
  ∃ i e, .finish i ∈ labels ∧ Raises fromTimestamp (assignmentIds.get i) (outcome i) e ∧
    e.isInstance kind = true

variable {outcome : Fin assignmentIds.length → Outcome}
  {labels : List (TaskLabel (Fin assignmentIds.length))}
  {g : TaskGroup (Fin assignmentIds.length) (Option FetchedSubmission) Error}

theorem any_errors_iff
    (hrun : FreeRun (TaskGroup.step fun i => probe fromTimestamp (assignmentIds.get i) (outcome i))
      TaskGroup.start labels g) {kind : ErrorClass}
    (hkind : ∀ e : Error, e.isInstance kind = true → e.escalates = true) :
    (g.errors.map Prod.snd).any (·.isInstance kind) = true ↔
      RaisedKind fromTimestamp assignmentIds outcome labels kind := by
  simp only [List.any_eq_true, List.mem_map, Prod.exists, exists_eq_right]
  constructor
  · rintro ⟨e, ⟨i, hmem⟩, hinst⟩
    obtain ⟨hlabel, herror⟩ := (TaskGroup.mem_errors_iff hrun).mp hmem
    exact ⟨i, e, hlabel, (probe_error_iff.mp herror).1, hinst⟩
  · rintro ⟨i, e, hlabel, hraises, hinst⟩
    have herror := probe_error_iff.mpr ⟨hraises, hkind e hinst⟩
    exact ⟨e, ⟨i, (TaskGroup.mem_errors_iff hrun).mpr ⟨hlabel, herror⟩⟩, hinst⟩

end Batch

/-- Every batch ends, and nothing but an error of the table keeps it from its answers: without one
it returns what the replies are parsed to, and with one it raises the kind the table puts first. -/
theorem fetch_exact {assignmentIds : List ℤ} {outcome : Fin assignmentIds.length → Outcome}
    {labels : List (TaskLabel (Fin assignmentIds.length))}
    {g : TaskGroup (Fin assignmentIds.length) (Option FetchedSubmission) Error}
    (hrun : FreeRun (TaskGroup.step fun i => probe fromTimestamp (assignmentIds.get i) (outcome i))
      TaskGroup.start labels g) :
    labels.length ≤ assignmentIds.length ∧
      (fetchSubmissionStatus assignmentIds g = none → ∃ i g', TaskGroup.step
        (fun i => probe fromTimestamp (assignmentIds.get i) (outcome i)) g (.finish i) =
          some g') ∧
      ∀ r, fetchSubmissionStatus assignmentIds g = some r →
        ((∀ i e, Raises fromTimestamp (assignmentIds.get i) (outcome i) e →
            e.escalates = false) →
          ∃ results, r = .returned results ∧
            (∀ id parsed, results id = some parsed → ∃ i, assignmentIds.get i = id ∧
              readReply fromTimestamp id (outcome i).reply = .ok (some parsed)) ∧
            ∀ i parsed, readReply fromTimestamp (assignmentIds.get i) (outcome i).reply =
              .ok (some parsed) → (results (assignmentIds.get i)).isSome = true) ∧
        ((∃ i e, Raises fromTimestamp (assignmentIds.get i) (outcome i) e ∧
            e.escalates = true) →
          let raised := RaisedKind fromTimestamp assignmentIds outcome labels
          (raised .moodleTokenInvalid → r = .raised ⟨.moodleTokenInvalid, "invalidtoken"⟩) ∧
          (¬raised .moodleTokenInvalid → raised .moodleRateLimited →
            r = .raised ⟨.moodleRateLimited, "http_429"⟩) ∧
          (¬raised .moodleTokenInvalid → ¬raised .moodleRateLimited →
            raised .moodleUnreachable ∧
              r = .raised ⟨.moodleUnreachable, "submission_probe_unreachable"⟩)) := by
  have hinv := TaskGroup.groupInv hrun
  refine ⟨?_, ?_, ?_⟩
  · have hlen := TaskGroup.length_add_running hrun
    rw [Fintype.card_fin] at hlen
    omega
  · intro hnone
    have hopen : ¬g.Ended := by
      intro hended
      rw [fetchSubmissionStatus, if_pos hended] at hnone
      grind
    obtain ⟨i, hi⟩ := not_forall.mp hopen
    exact ⟨i, TaskGroup.exists_finish (not_not.mp hi)⟩
  · intro r hr
    have hended : g.Ended := by
      by_contra hopen
      rw [fetchSubmissionStatus, if_neg hopen] at hr
      cases hr
    rw [fetchSubmissionStatus, if_pos hended] at hr
    constructor
    · intro hquiet
      have hnone : ∀ i e, probe fromTimestamp (assignmentIds.get i) (outcome i) ≠ .error e := by
        intro i e herror
        obtain ⟨hraises, hesc⟩ := probe_error_iff.mp herror
        rw [hquiet i e hraises] at hesc
        cases hesc
      obtain ⟨herrors, hreturned⟩ := TaskGroup.returned_of_ended hinv hended hnone
      rw [herrors] at hr
      refine ⟨_, (Option.some.inj hr).symm, ?_, ?_⟩
      · intro id parsed hid
        obtain ⟨i, rfl, hmem⟩ := store_some hid
        exact ⟨i, rfl, probe_some_iff.mp ((hreturned i _).mp hmem)⟩
      · intro i parsed hparsed
        exact isSome_store ((hreturned i _).mpr (probe_some_iff.mpr hparsed))
    · rintro ⟨i, e, hraises, hesc⟩
      have hne := TaskGroup.errors_ne_nil_of_ended hinv hended
        (probe_error_iff.mpr ⟨hraises, hesc⟩)
      have hall : ∀ e ∈ g.errors.map Prod.snd, e.escalates = true := by
        intro e he
        obtain ⟨⟨i, _⟩, hmem, rfl⟩ := List.mem_map.mp he
        exact (probe_error_iff.mp (hinv.errors i _ hmem)).2
      have hstar := exceptStar_eq (by simpa using hne) hall
      have hsome : g.errors.isEmpty = false := by
        rwa [Bool.eq_false_iff, Ne, List.isEmpty_iff]
      simp only [hsome, Bool.false_eq_true, if_false, hstar] at hr
      have hinstance : ∀ row ∈ probeEscalations, ∀ e : Error, e.isInstance row.1 = true →
          e.escalates = true := fun row hrow e he => List.any_eq_true.mpr ⟨row, hrow, he⟩
      have htoken := any_errors_iff hrun
        (hinstance (.moodleTokenInvalid, "invalidtoken") (by simp [probeEscalations]))
      have hrate := any_errors_iff hrun
        (hinstance (.moodleRateLimited, "http_429") (by simp [probeEscalations]))
      have hunreachable := any_errors_iff hrun (hinstance
        (.moodleUnreachable, "submission_probe_unreachable") (by simp [probeEscalations]))
      rw [route_eq] at hr
      refine ⟨fun h => ?_, fun hno h => ?_, fun hno hno' => ⟨?_, ?_⟩⟩
      · rw [if_pos (htoken.mpr h)] at hr
        exact (Option.some.inj hr).symm
      · rw [if_neg (mt htoken.mp hno), if_pos (hrate.mpr h)] at hr
        exact (Option.some.inj hr).symm
      · -- An error of the table that is of neither other kind is of this one.
        obtain ⟨⟨i, e⟩, hmem⟩ := List.exists_mem_of_ne_nil _ hne
        have hmem' : e ∈ g.errors.map Prod.snd := List.mem_map.mpr ⟨_, hmem, rfl⟩
        obtain ⟨row, hrow, hinst⟩ := List.any_eq_true.mp (hall e hmem')
        have hraised : ∀ kind, e.isInstance kind = true →
            (g.errors.map Prod.snd).any (·.isInstance kind) = true := fun kind hkind =>
          List.any_eq_true.mpr ⟨e, hmem', hkind⟩
        simp only [probeEscalations, List.mem_cons, List.not_mem_nil, or_false] at hrow
        rcases hrow with rfl | rfl | rfl
        · exact absurd (htoken.mp (hraised _ hinst)) hno
        · exact absurd (hrate.mp (hraised _ hinst)) hno'
        · exact hunreachable.mp (hraised _ hinst)
      · rw [if_neg (mt htoken.mp hno), if_neg (mt hrate.mp hno')] at hr
        exact (Option.some.inj hr).symm

end Fetch

/-- Unix seconds that `datetime` holds. -/
def unixSeconds : JsonFloat → Except Error Instant
  | .finite q => .ok (q * 1000000).floor
  | _ => .error ⟨.valueError, "cannot convert float to integer"⟩

/-- An answer, a connection error whose log call fails, and an error nobody foresaw. -/
def mixedOutcomes : Fin 3 → Outcome
  | 0 => ⟨.response 200 (.ok (.dict [("lastattempt", .dict [("submission",
      .dict [("status", .str "submitted"), ("timemodified", .int 1757000000)])])])), none, none⟩
  | 1 => ⟨.raised ⟨.httpError, "timed out"⟩, some ⟨.other, "broken pipe"⟩,
      some ⟨.other, "broken pipe"⟩⟩
  | 2 => ⟨.response 200 (.error ⟨.other, "recursion"⟩), none, none⟩

/-- The same with a 429 and a dead token. -/
def escalatingOutcomes : Fin 3 → Outcome
  | 0 => mixedOutcomes 0
  | 1 => ⟨.response 429 (.error ⟨.valueError, ""⟩), none, none⟩
  | 2 => ⟨.response 200 (.ok (.dict [("exception", .str "moodle_exception"),
      ("errorcode", .str "invalidtoken")])), none, none⟩

theorem fetch_exact_of_three :
    (∃ g results, fetchSubmissionStatus [7, 8, 9] g = some (.returned results) ∧
      (results 7).isSome = true) ∧
    ∃ g, fetchSubmissionStatus [7, 8, 9] g =
      some (.raised ⟨.moodleTokenInvalid, "invalidtoken"⟩) := by
  constructor
  · have hexec : ((exec (TaskGroup.step fun i =>
        probe unixSeconds ([7, 8, 9].get i) (mixedOutcomes i)) TaskGroup.start
        [.finish 1, .finish 2, .finish 0]).map
        fun g => (fetchSubmissionStatus [7, 8, 9] g).isSome) = some true := by
      decide +kernel
    obtain ⟨g, hg, hsome⟩ := Option.map_eq_some_iff.mp hexec
    obtain ⟨r, hr⟩ := Option.isSome_iff_exists.mp hsome
    have hquiet : ∀ i e, Raises unixSeconds ([7, 8, 9].get i) (mixedOutcomes i) e →
        e.escalates = false := by
      intro i e hraises
      by_contra hesc
      have herror := probe_error_iff.mpr ⟨hraises, (Bool.not_eq_false _).mp hesc⟩
      have hok : ∀ i, (probe unixSeconds ([7, 8, 9].get i) (mixedOutcomes i)).isOk = true := by
        decide +kernel
      have hi := hok i
      rw [herror] at hi
      cases hi
    obtain ⟨results, rfl, -, hall⟩ := ((fetch_exact (run_of_exec hg)).2.2 r hr).1 hquiet
    have hread : ((readReply unixSeconds 7 (mixedOutcomes 0).reply).toOption.join).isSome =
        true := by
      decide +kernel
    obtain ⟨parsed, hparsed⟩ := Option.isSome_iff_exists.mp hread
    refine ⟨g, results, hr, hall 0 parsed ?_⟩
    show readReply unixSeconds 7 (mixedOutcomes 0).reply = _
    cases hreply : readReply unixSeconds 7 (mixedOutcomes 0).reply with
    | error e => simp [hreply, Except.toOption] at hparsed
    | ok p =>
      rw [hreply] at hparsed
      exact congrArg _ hparsed
  · have hexec : ((exec (TaskGroup.step fun i =>
        probe unixSeconds ([7, 8, 9].get i) (escalatingOutcomes i)) TaskGroup.start
        [.finish 1, .finish 2, .cancel 0]).map
        fun g => (fetchSubmissionStatus [7, 8, 9] g).isSome) = some true := by
      decide +kernel
    obtain ⟨g, hg, hsome⟩ := Option.map_eq_some_iff.mp hexec
    obtain ⟨r, hr⟩ := Option.isSome_iff_exists.mp hsome
    have htoken : Raises unixSeconds ([7, 8, 9].get 2) (escalatingOutcomes 2)
        ⟨.moodleTokenInvalid, "invalidtoken"⟩ := .reply _ rfl
    have hraised := (((fetch_exact (run_of_exec hg)).2.2 r hr).2 ⟨2, _, htoken, rfl⟩).1
      ⟨2, _, by simp, htoken, rfl⟩
    exact ⟨g, by rw [hr, hraised]⟩

end TigerDuck.SyncJobs.Probes
