import TigerDuck.Relational.LastWriter
import TigerDuck.Sync.Requests

/-!
# Membership converges

What is stored of a course key behaves as a last-writer register of the user's choices
about it: every protocol-2 request writes its choice to the register, if it has one, and the
roster writes none. So the order and the repetitions of the requests do not matter, and one
more roster that lists the key shows the latest choice.

## Main results

- `Settled.apply`: the stored rows of a key keep following its register.
- `membership_converges`: after any run, a roster leaves the key as its latest choice says.
-/

namespace TigerDuck.Sync

open Relational LastWriter

/-- What a stamped edit chooses for a key. -/
inductive Choice
  | add
  | hide
  | remove
  | reset
  deriving DecidableEq, Repr

namespace Choice

/-- A reset also clears what was chosen at its own instant. -/
def ties : Choice → Bool
  | .reset => true
  | _ => false

/-- The choice of a delete. -/
def ofKind : DeleteKind → Choice
  | .hide => .hide
  | .remove => .remove

/-- What is stored of a key after its latest choice, once a roster lists it. -/
def outcome : LastWriter.Register Time Choice → Membership
  | none => ⟨some (.ntustPortal, none), none⟩
  | some (stamp, .add) => ⟨some (.ntustPortal, some stamp), none⟩
  | some (stamp, .remove) => ⟨some (.ntustPortal, none), some (.remove, stamp)⟩
  | some (stamp, .hide) => ⟨none, some (.hide, stamp)⟩
  | some (_, .reset) => ⟨some (.ntustPortal, none), none⟩

end Choice

/-- The choice a protocol-2 request makes about the key. -/
def Request.choice (key : CourseKey) (r : Request) : Option (Time × Choice) :=
  match r with
  | .upload .. => (r.stampOf (.add key)).map (·, .add)
  | .delete _ _ _ _ _ (some kind) _ => (r.stampOf (.delete key)).map (·, Choice.ofKind kind)
  | .delete _ _ _ _ _ none _ => none
  | .reset _ _ _ semester _ _ =>
    if inScope semester key then (r.stampOf (.reset semester)).map (·, .reset) else none

/-- A delete that leaves its kind to the stored row chooses by that row. -/
def Request.NamesKind : Request → Prop
  | .delete _ _ _ _ _ kind _ => kind.isSome
  | _ => True

/-- What is stored of the key follows the register. A row's source and an older reset's
tombstone are left open: the next roster decides them. -/
def Settled (u : UserSync) (key : CourseKey) (register : LastWriter.Register Time Choice) : Prop :=
  let m := u.membership key
  let covering := u.resets.covering (some key.term)
  match register with
  | none => m.added = none ∧ m.tombstone = none ∧ covering = none
  | some (stamp, .add) => m.added = some stamp ∧ m.tombstone = none ∧ bound covering ≤ stamp
  | some (stamp, .remove) =>
    m.added = none ∧ m.tombstone = some (.remove, stamp) ∧ bound covering ≤ stamp
  | some (stamp, .hide) =>
    m.row = none ∧ m.tombstone = some (.hide, stamp) ∧ bound covering ≤ stamp
  | some (stamp, .reset) =>
    m.added = none ∧ (∀ t, m.tombstone = some t → t.1 = .reset ∧ t.2 ≤ stamp) ∧
      covering = some stamp

section Register

variable (register : LastWriter.Register Time Choice) (stamp : Time)

/-- Any choice but a reset replaces only an older one. -/
theorem record_of_beats {choice : Choice} (h : choice.ties = false) :
    register.record Choice.ties (stamp, choice) =
      if beats stamp (register.map Prod.fst) then some (stamp, choice) else register := by
  cases register with
  | none => simp [Register.record, Register.Yields, beats]
  | some w => simp [Register.record, Register.Yields, beats, h]

/-- A reset also replaces a choice of its own instant. -/
theorem record_reset :
    register.record Choice.ties (stamp, .reset) =
      if (register.map Prod.fst).all (· ≤ stamp) then some (stamp, .reset) else register := by
  cases register with
  | none => simp [Register.record, Register.Yields]
  | some w =>
    have hiff : (w.1 < stamp ∨ w.1 ≤ stamp) ↔ w.1 ≤ stamp :=
      or_iff_right_of_imp le_of_lt
    simp [Register.record, Register.Yields, Choice.ties, hiff]

end Register

section Settled

variable {u v : UserSync} {key : CourseKey} {register : LastWriter.Register Time Choice}

/-- Whether a key is settled depends on what is stored of it and on its covering reset. -/
theorem Settled.congr (h : Settled u key register) (hkey : v.membership key = u.membership key)
    (hreset : bound (v.resets.covering (some key.term)) =
      bound (u.resets.covering (some key.term))) :
    Settled v key register := by
  simpa only [Settled, hkey, bound_inj.mp hreset] using h

/-- The stamp of a settled key is its register's. -/
theorem Settled.stamp_eq (h : Settled u key register) :
    u.stamp key = register.map Prod.fst := by
  rw [← bound_inj, bound_stamp]
  rcases register with _ | ⟨s, _ | _ | _ | _⟩
  · obtain ⟨hadd, htomb, hcov⟩ := h
    simp [hadd, htomb, hcov]
  · obtain ⟨hadd, htomb, hcov⟩ := h
    simp only [hadd, htomb, Option.map_none, bound_none, Option.map_some, bound_some]
    omega
  · obtain ⟨hrow, htomb, hcov⟩ := h
    simp only [Membership.added, hrow, htomb, Option.bind_none, bound_none, Option.map_some,
      bound_some]
    omega
  · obtain ⟨hadd, htomb, hcov⟩ := h
    simp only [hadd, htomb, bound_none, Option.map_some, bound_some]
    omega
  · obtain ⟨hadd, htomb, hcov⟩ := h
    rw [hadd, hcov]
    cases ht : (u.membership key).tombstone with
    | none => simp
    | some t =>
      have hle : bound (some t.2) ≤ bound (some s) := Nat.succ_le_succ (htomb t ht).2
      simp only [bound_none, Option.map_some]
      omega

/-- A roster makes no choice. -/
theorem Settled.roster (h : Settled u key register) (deviceId : Option DeviceId) (now : Time)
    {payload : CourseUploadRequest} {adds : Table CourseKey Time} (hlist : key ∈ payload.courses)
    (hadd : adds.get key = none) :
    Settled (applyUpload u deviceId true now payload adds).1 key register := by
  have hkey := membership_applyUpload_roster u deviceId now payload adds key hlist hadd
  have hreset := resets_applyUpload u deviceId now payload adds true
  simp only [Settled, hkey, hreset, Membership.added_listed, Membership.tombstone_listed]
  rcases register with _ | ⟨s, _ | _ | _ | _⟩
  · obtain ⟨hadded, htomb, hcov⟩ := h
    exact ⟨hadded, by rw [htomb]; rfl, hcov⟩
  · obtain ⟨hadded, htomb, hcov⟩ := h
    exact ⟨hadded, by rw [htomb]; rfl, hcov⟩
  · obtain ⟨hrow, htomb, hcov⟩ := h
    exact ⟨by rw [Membership.row_listed, htomb]; exact hrow, by rw [htomb]; rfl, hcov⟩
  · obtain ⟨hadded, htomb, hcov⟩ := h
    exact ⟨hadded, by rw [htomb]; rfl, hcov⟩
  · obtain ⟨hadded, htomb, hcov⟩ := h
    exact ⟨hadded, fun t ht => htomb t (Option.filter_eq_some_iff.mp ht).1, hcov⟩

/-- An add of the key is a write of its register. -/
theorem Settled.add (h : Settled u key register) (deviceId : Option DeviceId) (now : Time)
    {payload : CourseUploadRequest} {adds : Table CourseKey Time} (hlist : key ∈ payload.courses)
    {stamp : Time} (hadd : adds.get key = some stamp) :
    Settled (applyUpload u deviceId true now payload adds).1 key
      (register.record Choice.ties (stamp, .add)) := by
  have hreset := resets_applyUpload u deviceId now payload adds true
  rw [record_of_beats _ _ rfl, ← h.stamp_eq]
  cases hbeats : beats stamp (u.stamp key) with
  | false =>
    have hkey := membership_applyUpload_refused u deviceId now payload adds key hlist hadd hbeats
    exact h.congr hkey (by rw [hreset])
  | true =>
    obtain ⟨source, hkey⟩ :=
      membership_applyUpload_won u deviceId now payload adds key hlist hadd hbeats
    have hstamp := (beats_iff stamp _).mp hbeats
    rw [bound_stamp] at hstamp
    simp only [if_true, Settled, hkey, hreset]
    exact ⟨rfl, trivial, by omega⟩

/-- A delete of the key is a write of its register. -/
theorem Settled.delete (h : Settled u key register) (deviceId : Option DeviceId) (stamp : Time)
    (kind : DeleteKind) :
    Settled (deleteByStamp u deviceId key true stamp (some kind)).1 key
      (register.record Choice.ties (stamp, Choice.ofKind kind)) := by
  rw [record_of_beats _ _ (by cases kind <;> rfl), ← h.stamp_eq, deleteByStamp_eq]
  cases hbeats : beats stamp (u.stamp key) with
  | false => exact h
  | true =>
    have hstamp := (beats_iff stamp _).mp hbeats
    rw [bound_stamp] at hstamp
    have hkey := membership_hideOrRemove u deviceId key stamp kind
    have hreset := resets_hideOrRemove u deviceId key stamp kind
    simp only [if_true, DeleteKind.orDefault, Option.getD_some]
    cases kind with
    | hide =>
      simp only [Settled, Choice.ofKind, hkey, hreset]
      exact ⟨rfl, rfl, by omega⟩
    | remove =>
      simp only [Settled, Choice.ofKind, hkey, hreset, Membership.added, if_true]
      refine ⟨?_, rfl, by omega⟩
      cases (u.membership key).row.filter (·.1 ≠ .userAdded) <;> rfl

/-- A refused reset would have written what the register holds. -/
theorem Settled.record_reset_of_covered (h : Settled u key register) {stamp : Time}
    (hcovered : bound (some stamp) ≤ bound (u.resets.covering (some key.term))) :
    register.record Choice.ties (stamp, .reset) = register := by
  rw [record_reset]
  split
  next hle =>
    rw [bound_some] at hcovered
    rcases register with _ | ⟨s, _ | _ | _ | _⟩
    · obtain ⟨_, _, hcov⟩ := h
      rw [hcov, bound_none] at hcovered
      omega
    · have hs : s ≤ stamp := by simpa using hle
      exact absurd (h.2.2.trans hs) (Nat.not_le.mpr hcovered)
    · have hs : s ≤ stamp := by simpa using hle
      exact absurd (h.2.2.trans hs) (Nat.not_le.mpr hcovered)
    · have hs : s ≤ stamp := by simpa using hle
      exact absurd (h.2.2.trans hs) (Nat.not_le.mpr hcovered)
    · have hs : s ≤ stamp := by simpa using hle
      rw [h.2.2, bound_some] at hcovered
      obtain rfl : s = stamp := Nat.le_antisymm hs (Nat.le_of_succ_le_succ hcovered)
      rfl
  next => rfl

section Accepted

variable (deviceId : Option DeviceId) {semester : Option Term} {stamp : Time}
  (hscope : inScope semester key = true)

include hscope

/-- A reset no earlier than the key's stamp clears the key. -/
theorem settled_clearByStamp_of_le (hle : bound (u.stamp key) ≤ bound (some stamp)) :
    Settled (clearByStamp u deviceId semester stamp).1 key (some (stamp, .reset)) := by
  rw [bound_stamp] at hle
  have hall : semester.all (key.term = ·) = true := hscope
  have hcovering := covering_clearByStamp u deviceId semester stamp key.term
  rw [if_pos hall] at hcovering
  refine ⟨?_, ?_, ?_⟩
  · rw [added_clearByStamp, if_pos hscope]
    cases hadded : (u.membership key).added with
    | none => rfl
    | some t =>
      have ht : t + 1 ≤ stamp + 1 := by
        rw [hadded, bound_some, bound_some] at hle
        exact (le_max_left _ _).trans hle
      have hnot : ¬ stamp < t := Nat.not_lt.mpr (Nat.le_of_succ_le_succ ht)
      simp [Option.filter, hnot]
  · have hcovered : ∀ t, (u.membership key).tombstone = some t → t.2 ≤ stamp := by
      intro t ht
      rw [ht, Option.map_some, bound_some, bound_some] at hle
      exact Nat.le_of_succ_le_succ ((le_max_left _ _).trans ((le_max_right _ _).trans hle))
    intro t ht
    rw [tombstone_clearByStamp u deviceId semester stamp key hscope hcovered ht]
    exact ⟨rfl, Nat.le_refl stamp⟩
  · have hmax := (le_max_right _ _).trans ((le_max_right _ _).trans hle)
    rw [← bound_inj, hcovering, max_eq_right hmax]

/-- A reset earlier than the key's choice leaves that choice. -/
theorem Settled.clearByStamp_of_lt (h : Settled u key register)
    (hlt : bound (some stamp) < bound (u.stamp key)) :
    Settled (clearByStamp u deviceId semester stamp).1 key register := by
  rw [h.stamp_eq] at hlt
  have hall : semester.all (key.term = ·) = true := hscope
  have hcovering := covering_clearByStamp u deviceId semester stamp key.term
  have hadd := added_clearByStamp u deviceId semester stamp key
  rw [if_pos hall] at hcovering
  rw [if_pos hscope] at hadd
  rcases register with _ | ⟨s, choice⟩
  · exact absurd hlt (Nat.not_lt_zero _)
  have hs : stamp < s := Nat.lt_of_succ_lt_succ hlt
  have hcov_le : bound (u.resets.covering (some key.term)) ≤ s →
      bound ((clearByStamp u deviceId semester stamp).1.resets.covering (some key.term)) ≤ s := by
    intro hle
    rw [hcovering]
    exact max_le hle hs
  cases choice with
  | add =>
    obtain ⟨hadded, htomb, hcov⟩ := h
    refine ⟨?_, ?_, hcov_le hcov⟩
    · rw [hadd, hadded]
      simp [Option.filter, hs]
    · exact tombstone_clearByStamp_kept u deviceId semester stamp key htomb hadded hs
  | hide =>
    obtain ⟨hrow, htomb, hcov⟩ := h
    exact ⟨row_clearByStamp u deviceId semester stamp key hrow,
      tombstone_clearByStamp_later u deviceId semester stamp key htomb hs, hcov_le hcov⟩
  | remove =>
    obtain ⟨hadded, htomb, hcov⟩ := h
    refine ⟨by rw [hadd, hadded]; rfl, ?_, hcov_le hcov⟩
    exact tombstone_clearByStamp_later u deviceId semester stamp key htomb hs
  | reset =>
    obtain ⟨hadded, htomb, hcov⟩ := h
    refine ⟨by rw [hadd, hadded]; rfl, ?_, ?_⟩
    · intro t ht
      by_cases hold : ∃ old, (u.membership key).tombstone = some old ∧ stamp < old.2
      · obtain ⟨old, hold, hlater⟩ := hold
        rw [tombstone_clearByStamp_later u deviceId semester stamp key hold hlater] at ht
        exact htomb t (hold.trans ht)
      · have hle : ∀ old, (u.membership key).tombstone = some old → old.2 ≤ stamp :=
          fun old h => Nat.not_lt.mp fun hlater => hold ⟨old, h, hlater⟩
        rw [tombstone_clearByStamp u deviceId semester stamp key hscope hle ht]
        exact ⟨rfl, Nat.le_of_lt hs⟩
    · rw [← bound_inj, hcovering, hcov, bound_some, bound_some]
      exact max_eq_left (Nat.succ_le_succ (Nat.le_of_lt hs))

end Accepted

/-- A reset of the key's term, or a full reset, is a write of the key's register. -/
theorem Settled.reset (h : Settled u key register) (deviceId : Option DeviceId)
    {semester : Option Term} (stamp : Time) (hscope : inScope semester key = true) :
    Settled (resetByStamp u deviceId semester stamp).1 key
      (register.record Choice.ties (stamp, .reset)) := by
  simp only [resetByStamp]
  split
  next hbeats =>
    rw [record_reset, ← h.stamp_eq]
    by_cases hle : bound (u.stamp key) ≤ bound (some stamp)
    · have hall : (u.stamp key).all (· ≤ stamp) = true := by
        cases hstamp : u.stamp key with
        | none => rfl
        | some s => simpa [hstamp] using hle
      rw [if_pos hall]
      exact settled_clearByStamp_of_le deviceId hscope hle
    · have hall : ¬ (u.stamp key).all (· ≤ stamp) = true := by
        cases hstamp : u.stamp key with
        | none => simp [hstamp] at hle
        | some s => simpa [hstamp] using hle
      rw [if_neg hall]
      exact h.clearByStamp_of_lt deviceId hscope (Nat.not_le.mp hle)
  next hbeats =>
    have hstored : ¬ bound (storedReset u semester) ≤ stamp := fun hle =>
      hbeats ((beats_iff _ _).mpr hle)
    have hcovering := storedReset_le_covering u semester key hscope
    rw [h.record_reset_of_covered ((Nat.not_le.mp hstored).trans_le hcovering)]
    exact h

/-- Every protocol-2 request is a write of the key's register, or leaves it. -/
theorem Settled.apply (h : Settled u key register) {r : Request} (hclock : r.speaksClock = true)
    (hkind : r.NamesKind) :
    Settled (r.apply u) key ((r.choice key).elim register (register.record Choice.ties)) := by
  rcases Request.apply_cases hclock u with ⟨hsame, hnone⟩ |
    ⟨d, now, payload, adds, rfl, hok, hstamp, hmem⟩ |
    ⟨d, now, key', hlc, kind, age, stamp, rfl, hok, hstamp⟩ |
    ⟨d, now, semester, hlc, age, stamp, rfl, hok, hstamp⟩
  · have hchoice : r.choice key = none := by
      cases r with
      | upload => simp [Request.choice, hnone]
      | delete _ _ _ _ _ kind _ => cases kind <;> simp [Request.choice, hnone]
      | reset => simp [Request.choice, hnone]
    rw [hsame, hchoice]
    exact h
  · rw [Request.apply, hok, Request.keep_ok, Request.choice, hstamp]
    by_cases hlist : key ∈ payload.courses
    · cases hadd : adds.get key with
      | none => exact h.roster d now hlist hadd
      | some stamp => exact h.add d now hlist hadd
    · have hadd : adds.get key = none := by
        by_contra hne
        exact hlist (hmem key hne).1
      rw [hadd]
      exact h.congr (membership_applyUpload_of_not_mem u d now payload adds key hlist)
        (by rw [resets_applyUpload])
  · obtain ⟨kind, rfl⟩ := Option.isSome_iff_exists.mp hkind
    rw [Request.apply, hok, Request.keep_ok, Request.choice]
    by_cases hkey : key' = key
    · subst hkey
      rw [hstamp]
      exact h.delete d stamp kind
    · have hnone : Request.stampOf (.delete d true now key' hlc (some kind) age) (.delete key) =
          none := by simp [Request.stampOf, hkey]
      rw [hnone, deleteByStamp_eq]
      split
      · exact h.congr (membership_hideOrRemove_of_ne u d key' stamp _ (Ne.symm hkey)) rfl
      · exact h
  · rw [Request.apply, hok, Request.keep_ok, Request.choice]
    cases hscope : inScope semester key with
    | true =>
      rw [hstamp]
      exact h.reset d stamp hscope
    | false =>
      rw [resetByStamp]
      split
      · have hall : ¬ semester.all (key.term = ·) = true := by simpa [inScope] using hscope
        refine h.congr (membership_clearByStamp_of_not_inScope u d semester stamp key hscope) ?_
        rw [covering_clearByStamp, if_neg hall]
      · exact h

/-- A run of protocol-2 requests writes their choices to the register, in order. -/
theorem Settled.applyAll (h : Settled u key register) {requests : List Request}
    (hclock : ∀ r ∈ requests, r.speaksClock = true) (hkind : ∀ r ∈ requests, r.NamesKind) :
    Settled (Request.applyAll u requests) key
      ((requests.filterMap (Request.choice key)).foldl (Register.record Choice.ties) register) := by
  induction requests generalizing u register with
  | nil => exact h
  | cons r rest ih =>
    have hstep := h.apply (hclock r (by simp)) (hkind r (by simp))
    have hrest := ih hstep (fun q hq => hclock q (by simp [hq])) fun q hq => hkind q (by simp [hq])
    rw [List.filterMap_cons]
    cases hchoice : r.choice key with
    | none =>
      rw [hchoice] at hrest
      exact hrest
    | some w =>
      rw [hchoice] at hrest
      exact hrest

/-- A roster that lists a settled key shows its register. -/
theorem Settled.outcome_roster (h : Settled u key register) (deviceId : Option DeviceId)
    (now : Time) {payload : CourseUploadRequest} {adds : Table CourseKey Time}
    (hlist : key ∈ payload.courses) (hadd : adds.get key = none) :
    (applyUpload u deviceId true now payload adds).1.membership key = Choice.outcome register := by
  rw [membership_applyUpload_roster u deviceId now payload adds key hlist hadd]
  rcases register with _ | ⟨s, _ | _ | _ | _⟩
  · obtain ⟨hadded, htomb, _⟩ := h
    simp [Membership.listed, htomb, hadded, Choice.outcome]
  · obtain ⟨hadded, htomb, _⟩ := h
    simp [Membership.listed, htomb, hadded, Choice.outcome]
  · obtain ⟨hrow, htomb, _⟩ := h
    ext1 <;> simp [Membership.listed, htomb, hrow, Choice.outcome]
  · obtain ⟨hadded, htomb, _⟩ := h
    simp [Membership.listed, htomb, hadded, Choice.outcome]
  · obtain ⟨hadded, htomb, _⟩ := h
    rcases ht : (u.membership key).tombstone with _ | ⟨kind, t⟩
    · simp [Membership.listed, ht, hadded, Choice.outcome]
    · obtain rfl : kind = .reset := (htomb _ ht).1
      simp [Membership.listed, ht, hadded, Choice.outcome]

end Settled

/-- A key without a stamp is settled: nothing was chosen. -/
theorem settled_of_stamp_eq_none {u : UserSync} {key : CourseKey} (h : u.stamp key = none) :
    Settled u key none := by
  have hbound := bound_stamp u key
  rw [h, bound_none] at hbound
  have hadded : bound (u.membership key).added = 0 := by omega
  have htomb : bound ((u.membership key).tombstone.map Prod.snd) = 0 := by omega
  have hcov : bound (u.resets.covering (some key.term)) = 0 := by omega
  refine ⟨bound_inj.mp hadded, ?_, bound_inj.mp hcov⟩
  cases ht : (u.membership key).tombstone with
  | none => rfl
  | some t => simp [ht] at htomb

/-- **Membership convergence.** From a user who never chose about the key, let protocol-2
requests arrive in any order and with any repetitions: uploads with or without an add of the
key, deletes that name their kind, term resets and full resets. When no two choices about
the key share a stamp, a roster upload that then lists the key leaves it as the choice with
the greatest stamp says, and as a plain school course when there was no choice. -/
theorem membership_converges {u : UserSync} {key : CourseKey} (hnew : u.stamp key = none)
    {requests : List Request} (hclock : ∀ r ∈ requests, r.speaksClock = true)
    (hkind : ∀ r ∈ requests, r.NamesKind)
    (hdistinct : ∀ w ∈ requests.filterMap (Request.choice key),
      ∀ w' ∈ requests.filterMap (Request.choice key), w.1 = w'.1 → w = w')
    {deviceId : Option DeviceId} {now : Time} {payload : CourseUploadRequest} {v : UserSync}
    {answer : UploadAnswer}
    (hroster : uploadCourses (Request.applyAll u requests) deviceId true now payload =
      .ok (v, answer))
    (hlist : key ∈ payload.courses) (hout : ∀ a ∈ payload.adds, a.courseKey ≠ key) :
    (∀ w ∈ requests.filterMap (Request.choice key),
      (∀ w' ∈ requests.filterMap (Request.choice key), w'.1 ≤ w.1) →
        v.membership key = Choice.outcome (some w)) ∧
    (requests.filterMap (Request.choice key) = [] → v.membership key = Choice.outcome none) := by
  have hsettled := (settled_of_stamp_eq_none hnew).applyAll hclock hkind
  -- The roster makes no choice, so it shows what the run wrote.
  have hshown : v.membership key = Choice.outcome
      ((requests.filterMap (Request.choice key)).foldl (Register.record Choice.ties) none) := by
    obtain ⟨adds, hadds, hv⟩ := uploadCourses_eq_ok hroster
    have hadd : adds.get key = none := by
      by_contra hne
      obtain ⟨a, ha, hkey⟩ := exists_of_addStamps hadds hne
      exact hout a ha hkey
    have hrows : v = (applyUpload (Request.applyAll u requests) deviceId true now payload adds).1 :=
      congrArg Prod.fst hv
    rw [hrows]
    exact hsettled.outcome_roster deviceId now hlist hadd
  constructor
  · intro w hw hmax
    rw [hshown, Register.foldl_record_of_greatest Choice.ties hw hmax
      fun w' hw' heq => hdistinct w' hw' w hw heq]
  · intro hnil
    rw [hshown, hnil]
    rfl

/-- A removal between an add and a late, repeated hide: the roster shows the course beside
its removal. -/
theorem membership_converges_removed :
    let key : CourseKey := ⟨⟨"1131", by decide, by decide⟩, ⟨"CS3010", by decide⟩⟩
    let hide : Request := .delete none true 9 key (some 3) (some .hide) none
    let remove : Request := .delete none true 9 key (some 7) (some .remove) none
    let add : Request := .upload none true 9 ⟨[key], [], [], [⟨key, some 5, none⟩], []⟩
    let run := Request.applyAll .fresh [hide, add, remove, hide]
    ∃ v answer, uploadCourses run none true 9 ⟨[key], [], [], [], []⟩ = .ok (v, answer) ∧
      v.membership key = ⟨some (.ntustPortal, none), some (.remove, 7)⟩ := by
  intro key hide remove add run
  have hclock : ∀ r ∈ [hide, add, remove, hide], r.speaksClock = true := by decide
  have hkind : ∀ r ∈ [hide, add, remove, hide], r.NamesKind := by
    simp [hide, add, remove, Request.NamesKind]
  have hconverges := fun (v : UserSync) (answer : UploadAnswer)
      (hroster : uploadCourses run none true 9 ⟨[key], [], [], [], []⟩ = .ok (v, answer)) =>
    membership_converges rfl hclock hkind (by decide) hroster (List.mem_singleton_self key)
      (by decide)
  exact ⟨_, _, rfl, (hconverges _ _ rfl).1 (7, .remove) (by decide) (by decide)⟩

end TigerDuck.Sync
