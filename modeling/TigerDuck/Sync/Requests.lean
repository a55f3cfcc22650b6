import TigerDuck.Sync.Uploads

/-!
# Membership requests and the stamps they move

The three course requests of a user, in any order and any number. A protocol-2 request that
is not rejected carries stamped edits (`Request.stampOf`); the server accepts or refuses
each (`Request.verdict`).

## Main results

- `membership_stamps_only_move_forward`: in every reachable state no protocol-2 request
  lowers a key's stamp, an accepted edit raises its own, and an edit sent again with its
  stamp is refused and changes nothing.
-/

namespace TigerDuck.Sync

open Relational

/-- A course request of one user, as it reaches the server. -/
inductive Request
  | upload (deviceId : Option DeviceId) (speaksClock : Bool) (now : Time)
      (payload : CourseUploadRequest)
  | delete (deviceId : Option DeviceId) (speaksClock : Bool) (now : Time) (key : CourseKey)
      (hlc : Option Time) (kind : Option DeleteKind) (ageMs : Option Int)
  | reset (deviceId : Option DeviceId) (speaksClock : Bool) (now : Time) (semester : Option Term)
      (hlc : Option Time) (ageMs : Option Int)

/-- An edit of a key's membership, or a reset. -/
inductive Edit
  | add (key : CourseKey)
  | delete (key : CourseKey)
  | reset (semester : Option Term)
  deriving DecidableEq

namespace Request

/-- Whether the request comes from an app that stamps its edits. -/
def speaksClock : Request → Bool
  | upload _ s _ _ => s
  | delete _ s _ _ _ _ _ => s
  | reset _ s _ _ _ _ => s

/-- A rejected request leaves the rows alone. -/
def keep {α : Type} (u : UserSync) (answer : Except HttpError (UserSync × α)) : UserSync :=
  match answer with
  | .ok (v, _) => v
  | .error _ => u

@[simp]
theorem keep_ok {α : Type} (u : UserSync) (answer : UserSync × α) : keep u (.ok answer) = answer.1 :=
  rfl

/-- The rows after the request. -/
def apply (u : UserSync) : Request → UserSync
  | upload deviceId speaksClock now payload =>
    keep u (uploadCourses u deviceId speaksClock now payload)
  | delete deviceId speaksClock now key hlc kind ageMs =>
    keep u (deleteCourse u deviceId key speaksClock now hlc kind ageMs)
  | reset deviceId speaksClock now semester hlc ageMs =>
    keep u (deleteAllCourses u deviceId speaksClock now semester hlc ageMs)

/-- The rows after a list of requests, in order. -/
def applyAll (u : UserSync) (requests : List Request) : UserSync := requests.foldl apply u

/-- The stamp a protocol-2 edit is read with, unless the request is rejected. -/
def readStamp (hlc : Option Time) (now : Time) (ageMs : Option Int) : Option Time :=
  match requireStamp true hlc ageMs with
  | .ok _ => (editTime hlc now ageMs).toOption
  | .error _ => none

/-- The stamp of the edit, when the request carries it and is not rejected. -/
def stampOf : Request → Edit → Option Time
  | upload _ _ now payload, .add key =>
    if payload.adds.all fun a => a.courseKey ∈ payload.courses then
      (addStamps payload.adds now).toOption.bind (·.get key)
    else none
  | delete _ _ now key hlc _ ageMs, .delete key' =>
    if key = key' then readStamp hlc now ageMs else none
  | reset _ _ now semester hlc ageMs, .reset semester' =>
    if semester = semester' then readStamp hlc now ageMs else none
  | _, _ => none

/-- Whether the answer says the edit was applied. -/
def verdict (u : UserSync) : Request → Edit → Option Bool
  | upload deviceId speaksClock now payload, .add key => do
    let (_, answer) ← (uploadCourses u deviceId speaksClock now payload).toOption
    let add ← (← answer.adds).find? (·.courseKey = key)
    return add.applied
  | delete deviceId speaksClock now key hlc kind ageMs, .delete key' => do
    guard (key = key')
    let (_, answer) ← (deleteCourse u deviceId key speaksClock now hlc kind ageMs).toOption
    return answer.applied
  | reset deviceId speaksClock now semester hlc ageMs, .reset semester' => do
    guard (semester = semester')
    let (_, answer) ← (deleteAllCourses u deviceId speaksClock now semester hlc ageMs).toOption
    answer.applied
  | _, _ => none

/-- A released app stamps no reset. -/
def FromApp : Request → Prop
  | reset _ false _ _ hlc ageMs => hlc = none ∧ ageMs = none
  | _ => True

end Request

/-- A state some requests of the apps lead a new user to. -/
def Reachable (u : UserSync) : Prop :=
  ∃ requests : List Request, (∀ r ∈ requests, r.FromApp) ∧ u = Request.applyAll .fresh requests

/-- The stamp an edit must beat or raises: its key's, or the one a reset records. -/
def UserSync.editStamp (u : UserSync) : Edit → Option Time
  | .add key => u.stamp key
  | .delete key => u.stamp key
  | .reset semester => u.recorded semester

/-- What an edit must beat: its key's stamp, or the reset it would replace. -/
def UserSync.gate (u : UserSync) : Edit → Option Time
  | .add key => u.stamp key
  | .delete key => u.stamp key
  | .reset semester => storedReset u semester

/-- `v` has the rows of `u` as far as the edit is concerned, and no log entry of it. An add
shares its upload with other courses, so its key stands for it there. -/
def Untouched (e : Edit) (u v : UserSync) : Prop :=
  match e with
  | .add key =>
    v.courses.get key = u.courses.get key ∧ v.tombstones.get key = u.tombstones.get key ∧
      v.resets = u.resets ∧
        ∃ changes, v.changes = u.changes ++ changes ∧ ∀ c ∈ changes, c.payload ≠ .course key
  | _ => v = u

/-! ### Requests and their stamped form -/

/-- A key has a stamp only when one of the adds names it. -/
theorem exists_of_addStamps {adds : List CourseAdd} {now : Time} {stamps : Table CourseKey Time}
    (h : addStamps adds now = .ok stamps) {key : CourseKey} (hkey : stamps.get key ≠ none) :
    ∃ a ∈ adds, a.courseKey = key := by
  suffices hfold : ∀ (adds : List CourseAdd) (start stamps : Table CourseKey Time),
      adds.foldlM (fun stamps add => do
        requireStamp true add.hlc add.ageMs
        let stamp ← editTime add.hlc now add.ageMs
        return stamps.upsert add.courseKey stamp (max stamp)) start = .ok stamps →
      stamps.get key ≠ none → start.get key ≠ none ∨ ∃ a ∈ adds, a.courseKey = key by
    rcases hfold adds Table.empty stamps h hkey with hempty | hadd
    · exact absurd rfl hempty
    · exact hadd
  intro adds
  induction adds with
  | nil =>
    intro start stamps hok hne
    cases hok
    exact Or.inl hne
  | cons a rest ih =>
    intro start stamps hok hne
    rw [List.foldlM_cons] at hok
    cases hstamp : requireStamp true a.hlc a.ageMs with
    | error e => simp [hstamp, bind, Except.bind] at hok
    | ok _ =>
      cases htime : editTime a.hlc now a.ageMs with
      | error e => simp [hstamp, htime, bind, Except.bind] at hok
      | ok stamp =>
        simp only [hstamp, htime, bind, Except.bind, pure, Except.pure] at hok
        rcases ih _ stamps hok hne with hstart | ⟨b, hb, hbkey⟩
        · rw [Table.get_upsert] at hstart
          by_cases hka : key = a.courseKey
          · exact Or.inr ⟨a, by simp, hka.symm⟩
          · exact Or.inl (by simpa [hka] using hstart)
        · exact Or.inr ⟨b, by simp [hb], hbkey⟩

namespace Request

variable {r : Request} {u : UserSync}

/-- Reading a stamp fails in one of its two checks. -/
theorem readStamp_cases (hlc : Option Time) (now : Time) (ageMs : Option Int) :
    (∃ stamp, readStamp hlc now ageMs = some stamp ∧ requireStamp true hlc ageMs = .ok () ∧
      editTime hlc now ageMs = .ok stamp) ∨
    (readStamp hlc now ageMs = none ∧ ((∃ e, requireStamp true hlc ageMs = .error e) ∨
      requireStamp true hlc ageMs = .ok () ∧ ∃ e, editTime hlc now ageMs = .error e)) := by
  unfold readStamp
  cases requireStamp true hlc ageMs with
  | error e => exact Or.inr ⟨rfl, Or.inl ⟨e, rfl⟩⟩
  | ok _ =>
    cases editTime hlc now ageMs with
    | error e => exact Or.inr ⟨rfl, Or.inr ⟨rfl, e, rfl⟩⟩
    | ok stamp => exact Or.inl ⟨stamp, rfl, rfl, rfl⟩

/-- A protocol-2 request is rejected or does one of three things, with the stamps it
carries. -/
theorem apply_cases (h : r.speaksClock = true) (u : UserSync) :
    (r.apply u = u ∧ ∀ e, r.verdict u e = none ∧ r.stampOf e = none) ∨
    (∃ deviceId now payload adds, r = .upload deviceId true now payload ∧
      uploadCourses u deviceId true now payload =
        .ok (applyUpload u deviceId true now payload adds) ∧
      (∀ key, r.stampOf (.add key) = adds.get key) ∧
      ∀ key, adds.get key ≠ none → key ∈ payload.courses ∧ ∃ a ∈ payload.adds, a.courseKey = key) ∨
    (∃ deviceId now key hlc kind ageMs stamp,
      r = .delete deviceId true now key hlc kind ageMs ∧
      deleteCourse u deviceId key true now hlc kind ageMs =
        .ok (deleteByStamp u deviceId key true stamp kind) ∧
      r.stampOf (.delete key) = some stamp) ∨
    (∃ deviceId now semester hlc ageMs stamp,
      r = .reset deviceId true now semester hlc ageMs ∧
      deleteAllCourses u deviceId true now semester hlc ageMs =
        .ok (resetByStamp u deviceId semester stamp) ∧
      r.stampOf (.reset semester) = some stamp) := by
  cases r with
  | upload deviceId speaksClock now payload =>
    obtain rfl : speaksClock = true := h
    by_cases hvalid : payload.adds.all (fun a => a.courseKey ∈ payload.courses) = true
    · cases hadds : addStamps payload.adds now with
      | error e =>
        refine Or.inl ⟨by simp [apply, keep, uploadCourses, hvalid, hadds, bind, Except.bind], ?_⟩
        rintro ⟨key⟩ <;>
          simp [verdict, uploadCourses, hvalid, stampOf, hadds, bind, Except.bind, Except.toOption]
      | ok adds =>
        refine Or.inr (Or.inl ⟨deviceId, now, payload, adds, rfl, ?_, ?_, ?_⟩)
        · simp [uploadCourses, hvalid, hadds, bind, Except.bind, pure, Except.pure]
        · intro key
          rw [stampOf, if_pos hvalid, hadds]
          rfl
        · intro key hkey
          obtain ⟨a, ha, rfl⟩ := exists_of_addStamps hadds hkey
          exact ⟨by simpa using List.all_eq_true.mp hvalid a ha, a, ha, rfl⟩
    · refine Or.inl ⟨by simp [apply, keep, uploadCourses, hvalid, bind, Except.bind, throw,
        throwThe, MonadExceptOf.throw], ?_⟩
      rintro ⟨key⟩ <;> simp [verdict, uploadCourses, stampOf, hvalid, bind, Except.bind, throw,
        throwThe, MonadExceptOf.throw, Except.toOption]
  | delete deviceId speaksClock now key hlc kind ageMs =>
    obtain rfl : speaksClock = true := h
    rcases readStamp_cases hlc now ageMs with ⟨stamp, hread, hreq, htime⟩ | ⟨hread, hfail⟩
    · refine Or.inr (Or.inr (Or.inl ⟨_, _, _, _, _, _, stamp, rfl, ?_, ?_⟩))
      · simp [deleteCourse, hreq, htime, bind, Except.bind, pure, Except.pure]
      · rw [stampOf, if_pos rfl, hread]
    · refine Or.inl ⟨?_, ?_⟩
      · rcases hfail with ⟨e, hreq⟩ | ⟨hreq, e, htime⟩
        · simp [apply, keep, deleteCourse, hreq, bind, Except.bind]
        · simp [apply, keep, deleteCourse, hreq, htime, bind, Except.bind]
      · rintro ⟨key'⟩ <;> rcases hfail with ⟨e, hreq⟩ | ⟨hreq, e, htime⟩ <;>
          simp_all [verdict, deleteCourse, stampOf, bind, Except.bind, Except.toOption]
  | reset deviceId speaksClock now semester hlc ageMs =>
    obtain rfl : speaksClock = true := h
    rcases readStamp_cases hlc now ageMs with ⟨stamp, hread, hreq, htime⟩ | ⟨hread, hfail⟩
    · refine Or.inr (Or.inr (Or.inr ⟨_, _, _, _, _, stamp, rfl, ?_, ?_⟩))
      · simp [deleteAllCourses, hreq, htime, bind, Except.bind, pure, Except.pure]
      · rw [stampOf, if_pos rfl, hread]
    · refine Or.inl ⟨?_, ?_⟩
      · rcases hfail with ⟨e, hreq⟩ | ⟨hreq, e, htime⟩
        · simp [apply, keep, deleteAllCourses, hreq, bind, Except.bind]
        · simp [apply, keep, deleteAllCourses, hreq, htime, bind, Except.bind]
      · rintro ⟨key'⟩ <;> rcases hfail with ⟨e, hreq⟩ | ⟨hreq, e, htime⟩ <;>
          simp_all [verdict, deleteAllCourses, stampOf, bind, Except.bind, Except.toOption]

/-- An upload answers an add of a listed key by that key. -/
theorem find_addAnswer (u : UserSync) (adds : Table CourseKey Time) (key : CourseKey)
    (courses : List CourseKey) :
    (courses.filterMap (addAnswer u adds)).find? (·.courseKey = key) =
      if key ∈ courses then addAnswer u adds key else none := by
  have hkey : ∀ k answer, addAnswer u adds k = some answer → answer.courseKey = k := by
    intro k answer hanswer
    obtain ⟨stamp, _, rfl⟩ := Option.map_eq_some_iff.mp hanswer
    split <;> rfl
  induction courses with
  | nil => rfl
  | cons k rest ih =>
    rw [List.filterMap_cons]
    cases hanswer : addAnswer u adds k with
    | none =>
      by_cases hk : key = k
      · subst hk
        simp [ih, hanswer]
      · simp [ih, hk]
    | some answer =>
      have := hkey k answer hanswer
      by_cases hk : key = k
      · subst hk
        simp [this, hanswer]
      · have hk' : ¬k = key := fun h => hk h.symm
        simp [this, hk', hk, ih]

/-- The server accepts an edit exactly when its stamp beats what it must. -/
theorem verdict_eq (h : r.speaksClock = true) (u : UserSync) (e : Edit) :
    r.verdict u e = (r.stampOf e).map fun t => beats t (u.gate e) := by
  rcases apply_cases h u with ⟨hsame, hnone⟩ | ⟨d, now, payload, adds, rfl, hok, hstamp, hmem⟩ |
    ⟨d, now, key, hlc, kind, age, stamp, rfl, hok, hstamp⟩ |
    ⟨d, now, semester, hlc, age, stamp, rfl, hok, hstamp⟩
  · simp [hnone e]
  · cases e with
    | add key =>
      rw [hstamp]
      simp only [verdict, hok, Except.toOption, applyUpload, if_true, Option.bind_eq_bind,
        Option.bind_some, find_addAnswer, rosterByStamp]
      cases hadd : adds.get key with
      | none => simp [addAnswer, hadd]
      | some t =>
        have hlist := (hmem key (by simp [hadd])).1
        cases hbeats : beats t (u.stamp key) <;>
          simp [addAnswer, hadd, hlist, UserSync.gate, hbeats, pure]
    | delete key => rfl
    | reset semester => rfl
  · cases e with
    | add key' => rfl
    | delete key' =>
      by_cases hkey : key = key'
      · subst hkey
        rw [hstamp]
        simp only [verdict, hok, deleteByStamp_eq]
        cases hbeats : beats stamp (u.stamp key) <;>
          simp [Except.toOption, UserSync.gate, hbeats, hideOrRemove, guard, pure]
      · simp [verdict, stampOf, hkey, guard]
    | reset semester => rfl
  · cases e with
    | add key => rfl
    | delete key => rfl
    | reset semester' =>
      by_cases hsem : semester = semester'
      · subst hsem
        rw [hstamp]
        simp only [verdict, hok, resetByStamp]
        cases hbeats : beats stamp (storedReset u semester) <;>
          simp [Except.toOption, UserSync.gate, hbeats, clearByStamp, guard, pure]
      · simp [verdict, stampOf, hsem, guard]

end Request

/-! ### Stamps only move forward -/

/-- Every reset tombstone lies at or before a reset that covers its key. -/
def ResetsCovered (u : UserSync) : Prop :=
  ∀ key t, (u.membership key).tombstone = some (.reset, t) →
    bound (some t) ≤ bound (u.resets.covering (some key.term))

/-- A key's stamp depends on what is stored of it and on its covering reset. -/
theorem bound_stamp_congr {u v : UserSync} {key : CourseKey}
    (hkey : v.membership key = u.membership key)
    (hreset : bound (v.resets.covering (some key.term)) =
      bound (u.resets.covering (some key.term))) :
    bound (v.stamp key) = bound (u.stamp key) := by
  rw [bound_stamp, bound_stamp, hkey, hreset]

/-- An add is no later than its key's stamp. -/
theorem bound_filter_le (o : Option Time) (stamp : Time) :
    bound o ≤ max (bound (o.filter fun t => decide (stamp < t))) (bound (some stamp)) := by
  cases o with
  | none => simp
  | some t =>
    by_cases h : stamp < t
    · simp [Option.filter, h]
    · have hle := Nat.not_lt.mp h
      simp only [Option.filter, h, decide_false, Bool.false_eq_true, if_false, bound_none,
        bound_some]
      omega

/-- No upload lowers a stamp: it lifts the tombstone of a key only for a later add, or when
a reset covers it. -/
theorem stamp_le_applyUpload {u : UserSync} (hcov : ResetsCovered u) (deviceId : Option DeviceId)
    (now : Time) (payload : CourseUploadRequest) (adds : Table CourseKey Time) (key : CourseKey) :
    bound (u.stamp key) ≤
      bound ((applyUpload u deviceId true now payload adds).1.stamp key) := by
  have hreset := resets_applyUpload u deviceId now payload adds true
  by_cases hlist : key ∈ payload.courses
  · cases hadd : adds.get key with
    | some t =>
      by_cases hbeats : beats t (u.stamp key) = true
      · obtain ⟨source, hkey⟩ :=
          membership_applyUpload_won u deviceId now payload adds key hlist hadd hbeats
        have ht := (beats_iff t _).mp hbeats
        rw [bound_stamp (applyUpload u deviceId true now payload adds).1, hkey]
        simp only [Membership.added, Option.bind_some, bound_some]
        omega
      · have hkey := membership_applyUpload_refused u deviceId now payload adds key hlist hadd
          (by simpa using hbeats)
        exact (bound_stamp_congr hkey (by rw [hreset])).ge
    | none =>
      have hkey := membership_applyUpload_roster u deviceId now payload adds key hlist hadd
      rw [bound_stamp, bound_stamp (applyUpload u deviceId true now payload adds).1, hkey, hreset]
      rcases htomb : (u.membership key).tombstone with _ | ⟨kind, t⟩
      · simp [Membership.listed, htomb, Membership.added]
      · cases kind with
        | hide => simp [Membership.listed, htomb]
        | remove => simp [Membership.listed, htomb, Membership.added]
        | reset =>
          have hle := hcov key t htomb
          simp only [Membership.listed, htomb, Membership.added, Option.map_some,
            Option.bind_some, Option.map_none, bound_none]
          omega
  · have hkey := membership_applyUpload_of_not_mem u deviceId now payload adds key hlist
    exact (bound_stamp_congr hkey (by rw [hreset])).ge

/-- A delete moves the stamp of its key to its own, or changes nothing. -/
theorem stamp_le_deleteByStamp (u : UserSync) (deviceId : Option DeviceId) (key key' : CourseKey)
    (stamp : Time) (kind : Option DeleteKind) :
    bound (u.stamp key') ≤ bound ((deleteByStamp u deviceId key true stamp kind).1.stamp key') := by
  rw [deleteByStamp_eq]
  split
  next hbeats =>
    by_cases hkey : key' = key
    · subst hkey
      have ht := (beats_iff stamp _).mp hbeats
      rw [bound_stamp (hideOrRemove _ _ _ _ _).1, membership_hideOrRemove]
      simp only [Option.map_some, bound_some]
      omega
    · exact (bound_stamp_congr (membership_hideOrRemove_of_ne u deviceId key stamp _ hkey)
        rfl).ge
  next => exact le_rfl

/-- What a reset clears it covers. -/
theorem stamp_le_resetByStamp (u : UserSync) (deviceId : Option DeviceId)
    (semester : Option Term) (stamp : Time) (key : CourseKey) :
    bound (u.stamp key) ≤ bound ((resetByStamp u deviceId semester stamp).1.stamp key) := by
  simp only [resetByStamp]
  split
  next hbeats =>
    have hcovering := covering_clearByStamp u deviceId semester stamp key.term
    cases hscope : inScope semester key with
    | true =>
      have hall : semester.all (key.term = ·) = true := hscope
      rw [if_pos hall] at hcovering
      rw [bound_stamp, bound_stamp (clearByStamp _ _ _ _).1, hcovering,
        added_clearByStamp, if_pos hscope]
      have hadded := bound_filter_le (u.membership key).added stamp
      have htomb : bound ((u.membership key).tombstone.map Prod.snd) ≤
          max (bound (((clearByStamp u deviceId semester stamp).1.membership key).tombstone.map
            Prod.snd)) (bound (some stamp)) := by
        cases ht : (u.membership key).tombstone with
        | none => simp
        | some t =>
          by_cases hlater : stamp < t.2
          · simp [tombstone_clearByStamp_later u deviceId semester stamp key ht hlater]
          · have hle := Nat.not_lt.mp hlater
            simp only [Option.map_some, bound_some]
            omega
      omega
    | false =>
      rw [if_neg (by simpa [inScope] using hscope)] at hcovering
      exact (bound_stamp_congr
        (membership_clearByStamp_of_not_inScope u deviceId semester stamp key hscope)
        hcovering).ge
  next => exact le_rfl

namespace Request

variable {r : Request} {u : UserSync}

/-- No protocol-2 request lowers the stamp of a key. -/
theorem stamp_le_apply (hcov : ResetsCovered u) (h : r.speaksClock = true) (key : CourseKey) :
    bound (u.stamp key) ≤ bound ((r.apply u).stamp key) := by
  rcases apply_cases h u with ⟨hsame, _⟩ | ⟨d, now, payload, adds, rfl, hok, _⟩ |
    ⟨d, now, key', hlc, kind, age, stamp, rfl, hok, _⟩ | ⟨d, now, semester, hlc, age, stamp, rfl, hok, _⟩
  · rw [hsame]
  · simpa only [apply, hok, keep_ok] using stamp_le_applyUpload hcov d now payload adds key
  · simpa only [apply, hok, keep_ok] using stamp_le_deleteByStamp u d key' key stamp kind
  · simpa only [apply, hok, keep_ok] using stamp_le_resetByStamp u d semester stamp key

/-- No protocol-2 request lowers what an edit must beat. -/
theorem gate_le_apply (hcov : ResetsCovered u) (h : r.speaksClock = true) (e : Edit) :
    bound (u.gate e) ≤ bound ((r.apply u).gate e) := by
  have hreset : ∀ semester, bound (storedReset u semester) ≤
      bound (storedReset (r.apply u) semester) := by
    intro semester
    rcases apply_cases h u with ⟨hsame, _⟩ | ⟨d, now, payload, adds, rfl, hok, _⟩ |
      ⟨d, now, key', hlc, kind, age, stamp, rfl, hok, _⟩ |
      ⟨d, now, semester', hlc, age, stamp, rfl, hok, _⟩
    · rw [hsame]
    · cases semester <;> simp [apply, hok, storedReset, resets_applyUpload]
    · rw [apply, hok, keep_ok, deleteByStamp_eq]
      split <;> exact le_rfl
    · rw [apply, hok, keep_ok, resetByStamp]
      split
      · exact storedReset_le_clearByStamp u d semester' stamp semester
      · exact le_rfl
  cases e with
  | add key => exact stamp_le_apply hcov h key
  | delete key => exact stamp_le_apply hcov h key
  | reset semester => exact hreset semester

/-- What the request that carries an edit does. -/
theorem apply_of_stampOf (h : r.speaksClock = true) (u : UserSync) {e : Edit} {t : Time}
    (ht : r.stampOf e = some t) :
    (∃ deviceId now payload adds key, e = .add key ∧ adds.get key = some t ∧
      key ∈ payload.courses ∧ r.apply u = (applyUpload u deviceId true now payload adds).1) ∨
    (∃ deviceId key kind, e = .delete key ∧
      r.apply u = (deleteByStamp u deviceId key true t kind).1) ∨
    (∃ deviceId semester, e = .reset semester ∧
      r.apply u = (resetByStamp u deviceId semester t).1) := by
  rcases apply_cases h u with ⟨_, hnone⟩ | ⟨d, now, payload, adds, rfl, hok, hstamp, hmem⟩ |
    ⟨d, now, key', hlc, kind, age, stamp, rfl, hok, hstamp⟩ |
    ⟨d, now, semester, hlc, age, stamp, rfl, hok, hstamp⟩
  · rw [(hnone e).2] at ht
    cases ht
  · cases e with
    | add key =>
      have hadd : adds.get key = some t := by rw [← hstamp, ht]
      exact Or.inl ⟨d, now, payload, adds, key, rfl, hadd, (hmem key (by simp [hadd])).1,
        by rw [apply, hok, keep_ok]⟩
    | delete key => cases ht
    | reset semester => cases ht
  · cases e with
    | add key => cases ht
    | delete key =>
      by_cases hkey : key' = key
      · subst hkey
        obtain rfl : stamp = t := Option.some.inj (hstamp.symm.trans ht)
        exact Or.inr (Or.inl ⟨d, key', kind, rfl, by rw [apply, hok, keep_ok]⟩)
      · simp [stampOf, hkey] at ht
    | reset semester => cases ht
  · cases e with
    | add key => cases ht
    | delete key => cases ht
    | reset semester' =>
      by_cases hsem : semester = semester'
      · subst hsem
        obtain rfl : stamp = t := Option.some.inj (hstamp.symm.trans ht)
        exact Or.inr (Or.inr ⟨d, semester, rfl, by rw [apply, hok, keep_ok]⟩)
      · simp [stampOf, hsem] at ht

/-- An accepted edit raises its stamp to its own. -/
theorem editStamp_of_accepted (h : r.speaksClock = true) {e : Edit} {t : Time}
    (ht : r.stampOf e = some t) (hbeats : beats t (u.gate e) = true) :
    bound (some t) ≤ bound ((r.apply u).editStamp e) := by
  rcases apply_of_stampOf h u ht with ⟨d, now, payload, adds, key, rfl, hadd, hlist, happly⟩ |
    ⟨d, key, kind, rfl, happly⟩ | ⟨d, semester, rfl, happly⟩
  · obtain ⟨source, hkey⟩ := membership_applyUpload_won u d now payload adds key hlist hadd hbeats
    rw [happly, UserSync.editStamp, bound_stamp, hkey]
    exact le_max_left _ _
  · have hbeats' : beats t (u.stamp key) = true := hbeats
    rw [happly, deleteByStamp_eq, if_pos hbeats', UserSync.editStamp, bound_stamp,
      membership_hideOrRemove]
    exact le_max_of_le_right (le_max_left _ _)
  · have hbeats' : beats t (storedReset u semester) = true := hbeats
    rw [happly, resetByStamp, if_pos hbeats', UserSync.editStamp, recorded_clearByStamp]
    exact le_max_right _ _

/-- A refused edit leaves everything of its own as it was. -/
theorem untouched_of_refused (h : r.speaksClock = true) {e : Edit} {t : Time}
    (ht : r.stampOf e = some t) (hbeats : beats t (u.gate e) = false) :
    Untouched e u (r.apply u) := by
  rcases apply_of_stampOf h u ht with ⟨d, now, payload, adds, key, rfl, hadd, hlist, happly⟩ |
    ⟨d, key, kind, rfl, happly⟩ | ⟨d, semester, rfl, happly⟩
  · obtain ⟨hrow, htomb, hlog⟩ := applyUpload_refused u d now payload adds key hlist hadd hbeats
    rw [happly]
    exact ⟨hrow, htomb, resets_applyUpload u d now payload adds true, hlog⟩
  · have hbeats' : beats t (u.stamp key) = false := hbeats
    rw [happly, deleteByStamp_eq, hbeats']
    rfl
  · have hbeats' : beats t (storedReset u semester) = false := hbeats
    rw [happly, resetByStamp, hbeats']
    rfl

end Request

/-- The tombstones and resets of a new user are covered. -/
theorem resetsCovered_fresh : ResetsCovered .fresh := by
  intro key t h
  cases h

/-- Tombstones that stay, under resets that stay, stay covered. -/
theorem ResetsCovered.of_le {u v : UserSync} (hcov : ResetsCovered u)
    (h : ∀ key t, (v.membership key).tombstone = some (.reset, t) →
      (u.membership key).tombstone = some (.reset, t) ∨
        bound (some t) ≤ bound (v.resets.covering (some key.term)))
    (hreset : ∀ term, bound (u.resets.covering (some term)) ≤
      bound (v.resets.covering (some term))) :
    ResetsCovered v := by
  intro key t ht
  rcases h key t ht with hold | hnew
  · exact (hcov key t hold).trans (hreset key.term)
  · exact hnew

/-- An upload of either protocol writes no tombstone and no reset. -/
theorem ResetsCovered.applyUpload {u : UserSync} (hcov : ResetsCovered u)
    (deviceId : Option DeviceId) (speaksClock : Bool) (now : Time) (payload : CourseUploadRequest)
    (adds : Table CourseKey Time) :
    ResetsCovered (Sync.applyUpload u deviceId speaksClock now payload adds).1 := by
  refine hcov.of_le ?_ ?_
  · intro key t ht
    exact Or.inl (tombstone_of_applyUpload u deviceId now payload adds key speaksClock ht)
  · intro term
    rw [resets_applyUpload]

/-- A delete of either protocol writes no reset tombstone. -/
theorem ResetsCovered.deleteByStamp {u : UserSync} (hcov : ResetsCovered u)
    (deviceId : Option DeviceId) (key : CourseKey) (speaksClock : Bool) (stamp : Time)
    (kind : Option DeleteKind) :
    ResetsCovered (Sync.deleteByStamp u deviceId key speaksClock stamp kind).1 := by
  unfold Sync.deleteByStamp
  dsimp only
  split
  · exact hcov
  · refine hcov.of_le (fun key' t ht => Or.inl ?_) fun term => le_rfl
    by_cases hkey : key' = key
    · subst hkey
      rw [membership_hideOrRemove] at ht
      cases hk : DeleteKind.orDefault kind (u.courses.get key') <;>
        simp [hk, DeleteKind.tombstoneKind] at ht
    · rwa [membership_hideOrRemove_of_ne _ _ _ _ _ hkey] at ht

/-- A protocol-2 reset covers every tombstone it writes. -/
theorem ResetsCovered.clearByStamp {u : UserSync} (hcov : ResetsCovered u)
    (deviceId : Option DeviceId) (semester : Option Term) (stamp : Time) :
    ResetsCovered (Sync.clearByStamp u deviceId semester stamp).1 := by
  refine hcov.of_le (fun key t ht => ?_) fun term =>
    storedReset_le_clearByStamp u deviceId semester stamp (some term)
  cases hscope : inScope semester key with
  | false =>
    rw [membership_clearByStamp_of_not_inScope u deviceId semester stamp key hscope] at ht
    exact Or.inl ht
  | true =>
    by_cases hold : ∃ old, (u.membership key).tombstone = some old ∧ stamp < old.2
    · obtain ⟨old, hold, hlater⟩ := hold
      rw [tombstone_clearByStamp_later u deviceId semester stamp key hold hlater] at ht
      exact Or.inl (hold.trans ht)
    · right
      have hle : ∀ old, (u.membership key).tombstone = some old → old.2 ≤ stamp :=
        fun old h => Nat.not_lt.mp fun hlater => hold ⟨old, h, hlater⟩
      have hreset := tombstone_clearByStamp u deviceId semester stamp key hscope hle ht
      obtain rfl : t = stamp := congrArg Prod.snd hreset
      have hall : semester.all (key.term = ·) = true := hscope
      rw [covering_clearByStamp, if_pos hall]
      exact le_max_right _ _

/-- A released app's reset, stamped on arrival, covers every tombstone it writes. -/
theorem ResetsCovered.resetOnArrival {u : UserSync} (hcov : ResetsCovered u)
    (deviceId : Option DeviceId) (semester : Option Term) (now : Time) :
    ResetsCovered (Sync.resetOnArrival u deviceId semester now now).1 := by
  have hcovering := covering_resetOnArrival u deviceId semester now now
  refine hcov.of_le (fun key t ht => ?_) fun term => ?_
  · rcases tombstone_resetOnArrival u deviceId semester now key now ht with ⟨hscope, hreset⟩ | hold
    · obtain rfl : t = now := congrArg Prod.snd hreset
      have hall : semester.all (key.term = ·) = true := hscope
      right
      rw [hcovering, if_pos hall]
      exact le_max_right _ _
    · exact Or.inl hold
  · rw [hcovering]
    split
    · exact le_max_left _ _
    · exact le_rfl

/-- Every request of the apps keeps reset tombstones covered. -/
theorem ResetsCovered.apply {u : UserSync} (hcov : ResetsCovered u) {r : Request}
    (happ : r.FromApp) : ResetsCovered (r.apply u) := by
  cases r with
  | upload deviceId speaksClock now payload =>
    simp only [Request.apply, uploadCourses, bind, Except.bind, pure, Except.pure]
    split
    · exact hcov
    · split
      next hclock =>
        cases addStamps payload.adds now with
        | error e => exact hcov
        | ok adds => exact hcov.applyUpload deviceId speaksClock now payload adds
      next => exact hcov.applyUpload deviceId speaksClock now payload Table.empty
  | delete deviceId speaksClock now key hlc kind ageMs =>
    simp only [Request.apply, deleteCourse, bind, Except.bind, pure, Except.pure]
    cases requireStamp speaksClock hlc ageMs with
    | error e => exact hcov
    | ok _ =>
      cases editTime hlc now ageMs with
      | error e => exact hcov
      | ok stamp => exact hcov.deleteByStamp deviceId key speaksClock stamp kind
  | reset deviceId speaksClock now semester hlc ageMs =>
    simp only [Request.apply, deleteAllCourses, bind, Except.bind, pure, Except.pure]
    cases requireStamp speaksClock hlc ageMs with
    | error e => exact hcov
    | ok _ =>
      cases speaksClock with
      | true =>
        cases editTime hlc now ageMs with
        | error e => exact hcov
        | ok stamp =>
          simp only [if_true, Request.keep, resetByStamp]
          split
          · exact hcov.clearByStamp deviceId semester stamp
          · exact hcov
      | false =>
        obtain ⟨rfl, rfl⟩ := happ
        simp only [editTime, Bool.false_eq_true, if_false]
        split
        · exact hcov
        · exact hcov.resetOnArrival deviceId semester now

/-- A run of the apps' requests keeps reset tombstones covered. -/
theorem ResetsCovered.applyAll {u : UserSync} (hcov : ResetsCovered u) {requests : List Request}
    (happ : ∀ r ∈ requests, r.FromApp) : ResetsCovered (Request.applyAll u requests) := by
  induction requests generalizing u with
  | nil => exact hcov
  | cons r rest ih =>
    exact ih (hcov.apply (happ r (by simp))) fun r' hr' => happ r' (by simp [hr'])

/-- Every reachable state's reset tombstones are covered. -/
theorem ResetsCovered.of_reachable {u : UserSync} (hu : Reachable u) : ResetsCovered u := by
  obtain ⟨requests, happ, rfl⟩ := hu
  exact resetsCovered_fresh.applyAll happ

/-- A protocol-2 request is one of the apps'. -/
theorem Request.fromApp_of_speaksClock {r : Request} (h : r.speaksClock = true) : r.FromApp := by
  cases r with
  | upload => trivial
  | delete => trivial
  | reset deviceId speaksClock now semester hlc ageMs =>
    obtain rfl : speaksClock = true := h
    trivial

/-- No run of protocol-2 requests lowers what an edit must beat. -/
theorem gate_le_applyAll {u : UserSync} (hcov : ResetsCovered u) {requests : List Request}
    (hclock : ∀ r ∈ requests, r.speaksClock = true) (e : Edit) :
    bound (u.gate e) ≤ bound ((Request.applyAll u requests).gate e) := by
  induction requests generalizing u with
  | nil => exact le_rfl
  | cons r rest ih =>
    have hr := hclock r (by simp)
    have hstep := Request.gate_le_apply hcov hr e
    have hrest := ih (hcov.apply (Request.fromApp_of_speaksClock hr))
      fun r' hr' => hclock r' (by simp [hr'])
    exact hstep.trans hrest

/-- What an edit raises is no later than what it must beat. -/
theorem editStamp_le_gate (u : UserSync) (e : Edit) : bound (u.editStamp e) ≤ bound (u.gate e) := by
  cases e with
  | add key => exact le_rfl
  | delete key => exact le_rfl
  | reset semester => exact recorded_le_storedReset u semester

/-- Once the server has seen an edit, accepted or not, nothing beats it at its stamp. -/
theorem Request.gate_of_stampOf {u : UserSync} (hcov : ResetsCovered u) {r : Request}
    (h : r.speaksClock = true) {e : Edit} {t : Time} (ht : r.stampOf e = some t) :
    bound (some t) ≤ bound ((r.apply u).gate e) := by
  cases hbeats : beats t (u.gate e) with
  | true => exact (editStamp_of_accepted h ht hbeats).trans (editStamp_le_gate _ e)
  | false =>
    have hseen : bound (some t) ≤ bound (u.gate e) := by
      have hnot : ¬ bound (u.gate e) ≤ t := fun hle => by
        rw [(beats_iff t _).mpr hle] at hbeats
        cases hbeats
      exact Nat.lt_of_not_le hnot
    exact hseen.trans (gate_le_apply hcov h e)

/-- **Membership stamps only move forward.** In every reachable state and for every
protocol-2 request: no key's stamp decreases; an accepted edit strictly raises its stamp; and
the same edit at the same stamp, in any later request, is refused and leaves its rows, every
reset and the log of its key alone. -/
theorem membership_stamps_only_move_forward {u : UserSync} (hu : Reachable u) {r : Request}
    (hr : r.speaksClock = true) :
    (∀ key, bound (u.stamp key) ≤ bound ((r.apply u).stamp key)) ∧
    (∀ e, r.verdict u e = some true → bound (u.editStamp e) < bound ((r.apply u).editStamp e)) ∧
    (∀ e t, r.stampOf e = some t → ∀ later : List Request, (∀ q ∈ later, q.speaksClock = true) →
      ∀ r' : Request, r'.speaksClock = true → r'.stampOf e = some t →
        r'.verdict (Request.applyAll (r.apply u) later) e = some false ∧
          Untouched e (Request.applyAll (r.apply u) later)
            (r'.apply (Request.applyAll (r.apply u) later))) := by
  have hcov := ResetsCovered.of_reachable hu
  refine ⟨fun key => Request.stamp_le_apply hcov hr key, ?_, ?_⟩
  · intro e haccepted
    rw [Request.verdict_eq hr] at haccepted
    obtain ⟨t, ht, hbeats⟩ := Option.map_eq_some_iff.mp haccepted
    have hraised := Request.editStamp_of_accepted hr ht hbeats
    have hgate := (beats_iff t _).mp hbeats
    have hle := editStamp_le_gate u e
    rw [bound_some] at hraised
    omega
  · intro e t ht later hlater r' hr' ht'
    have hcov' := hcov.apply (Request.fromApp_of_speaksClock hr)
    have hgate := (Request.gate_of_stampOf hcov hr ht).trans (gate_le_applyAll hcov' hlater e)
    have hrefused : beats t ((Request.applyAll (r.apply u) later).gate e) = false := by
      rw [← Bool.not_eq_true, beats_iff]
      rw [bound_some] at hgate
      omega
    refine ⟨?_, Request.untouched_of_refused hr' ht' hrefused⟩
    rw [Request.verdict_eq hr', ht', Option.map_some, hrefused]

/-- A hide of a course nobody has raises its stamp once, and is refused when it comes again
after a full reset. -/
theorem membership_stamps_only_move_forward_hide :
    let key : CourseKey := ⟨⟨"1131", by decide, by decide⟩, ⟨"CS3010", by decide⟩⟩
    let hide : Request := .delete none true 0 key (some 5) (some .hide) none
    let reset : Request := .reset none true 0 none (some 9) none
    bound (UserSync.fresh.stamp key) < bound ((hide.apply .fresh).stamp key) ∧
      hide.verdict (Request.applyAll (hide.apply .fresh) [reset]) (.delete key) = some false := by
  intro key hide reset
  have h := membership_stamps_only_move_forward (u := .fresh) (r := hide)
    ⟨[], List.forall_mem_nil _, rfl⟩ rfl
  exact ⟨h.2.1 (.delete key) (by decide),
    (h.2.2 (.delete key) 5 rfl [reset] (by decide) hide rfl rfl).1⟩

end TigerDuck.Sync
