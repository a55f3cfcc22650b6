import Mathlib.Data.List.Range
import TigerDuck.Auth.Requests

/-!
# The lineage of a sign-in

What the sessions of one sign-in always look like: none of them is live; or one is, without a
rival; or the newest rotations of one token are, unused, in a ring (`Shape`). A token that was
rotated into a session that is live and unused has not been rotated into one that was used
(`Lineages.newest`), so a refresh that presents it again decides right.

`Lineages.quiet` says that a write that leaves every sign-in's live sessions as they are, or ends
them all, keeps this. The writes that begin and settle a contest are in `Auth.Contests`.
-/

namespace TigerDuck.Auth

open Relational

variable {db db' : Db} {h : History} {id x : SessionId}

/-! ### Rows after a write -/

namespace Db

@[simp]
theorem get_updateSession (db : Db) (id : SessionId) (f : AuthSession → AuthSession)
    (k : SessionId) : (db.updateSession id f).sessions.get k =
      (db.sessions.get k).map fun row => if k = id then f row else row := by
  simp [updateSession]

@[simp]
theorem nextSession_updateSession (db : Db) (id : SessionId) (f : AuthSession → AuthSession) :
    (db.updateSession id f).nextSession = db.nextSession := rfl

@[simp]
theorem get_insertSession (db : Db) (row : AuthSession) (k : SessionId) :
    (db.insertSession row).sessions.get k =
      if k = db.nextSession then some row else db.sessions.get k := by
  simp [insertSession]

@[simp]
theorem nextSession_insertSession (db : Db) (row : AuthSession) :
    (db.insertSession row).nextSession = db.nextSession + 1 := rfl

@[simp]
theorem get_supersede (db : Db) (ids : List SessionId) (winner : SessionId) (now : Time)
    (k : SessionId) : (db.supersede ids winner now).sessions.get k =
      (db.sessions.get k).map (supersededRow ids winner now k) := by
  simp [supersede]

@[simp]
theorem nextSession_supersede (db : Db) (ids : List SessionId) (winner : SessionId) (now : Time) :
    (db.supersede ids winner now).nextSession = db.nextSession := rfl

@[simp]
theorem get_revokeAll (db : Db) (ids : List SessionId) (now : Time) (k : SessionId) :
    (db.revokeAll ids now).sessions.get k = (db.sessions.get k).map fun row =>
      if ids.contains k then row.revoke .adminRevoked now else row := by
  simp [revokeAll]

@[simp]
theorem get_forgetDevices (db : Db) (devices : List DeviceId) (k : SessionId) :
    (db.forgetDevices devices).sessions.get k = (db.sessions.get k).map fun row =>
      { row with deviceId := row.deviceId.filter fun d => !devices.contains d } := by
  simp [forgetDevices]

theorem get_pruneExpired (db : Db) (ids : List SessionId) (cutoff : Time) (k : SessionId) :
    (db.pruneExpired ids cutoff).sessions.get k =
      ((db.sessions.get k).filter fun row => !pruned ids cutoff k row).map fun row =>
        row.link (row.replacedBySessionId.filter fun next =>
          !((db.sessions.select (pruned ids cutoff)).map Prod.fst).contains next) := by
  simp [pruneExpired]

theorem live_iff : db.live id = true ↔ ∃ row, db.sessions.get id = some row ∧
    row.revokedAt = none := by
  simp [live, Option.any_eq_true]

/-- The session its row names as its successor or rival. -/
def next (db : Db) (id : SessionId) : Option SessionId :=
  (db.sessions.get id).bind (·.replacedBySessionId)

/-- Whether the row shows a use. -/
def isUsed (db : Db) (id : SessionId) : Bool :=
  (db.sessions.get id).any (·.firstUsedAt.isSome)

end Db

/-! ### The sessions of a sign-in -/

/-- The live sessions of a sign-in, oldest first. -/
def siblings (db : Db) (root : SessionId → SessionId) (ρ : SessionId) : List SessionId :=
  (List.range db.nextSession).filter fun id => db.live id && decide (root id = ρ)

/-- The sessions a token was rotated into, oldest first. -/
def children (db : Db) (rotatedFrom : SessionId → Option SessionId) (id : SessionId) :
    List SessionId :=
  (List.range db.nextSession).filter fun child => decide (rotatedFrom child = some id)

/-- The newest of them, as many as stay live. -/
def newest (ids : List SessionId) : List SessionId :=
  ids.drop (ids.length - UNUSED_SESSIONS_KEPT)

/-- What the live sessions of a sign-in can be. -/
inductive Shape (db : Db) : List SessionId → Prop
  | ended : Shape db []
  /-- One session, which no other rivals. -/
  | settled (x : SessionId) : db.next x = none → Shape db [x]
  /-- The sessions that rotations of one token left, unused and in a ring. -/
  | contested (ids : List SessionId) : 2 ≤ ids.length → ids.length ≤ UNUSED_SESSIONS_KEPT →
      (∀ x ∈ ids, db.isUsed x = false) → IsRing db.rival ids → Shape db ids

/-- What holds of the sessions at any time. -/
structure Lineages (db : Db) (h : History) : Prop where
  bound : ∀ id row, db.sessions.get id = some row → id < db.nextSession
  /-- Nothing has happened to a session that is still to come. -/
  fresh : ∀ id, db.nextSession ≤ id →
    h.rotatedFrom id = none ∧ h.used id = false ∧ h.superseded id = false
  root_le : ∀ id, h.root id ≤ id
  child : ∀ id parent, h.rotatedFrom id = some parent → parent < id ∧ h.root id = h.root parent
  next : ∀ id row next, db.sessions.get id = some row → row.replacedBySessionId = some next →
    next < db.nextSession ∧ h.root next = h.root id
  used : ∀ id row, db.sessions.get id = some row → h.used id = row.firstUsedAt.isSome
  superseded : ∀ id row, db.sessions.get id = some row →
    (h.superseded id = true ↔ row.revokedReason = some .superseded)
  /-- A session that was used is not superseded. -/
  supersededUnused : ∀ id row, db.sessions.get id = some row →
    row.revokedReason = some .superseded → row.firstUsedAt = none
  unrevoked : ∀ id row, db.sessions.get id = some row → row.revokedAt = none →
    row.revokedReason = none
  sameDevice : ∀ x y row row', db.sessions.get x = some row → db.sessions.get y = some row' →
    h.root x = h.root y → row.deviceId = row'.deviceId
  /-- A token that has been rotated is not live. -/
  childless : ∀ id parent, h.rotatedFrom id = some parent → db.live parent = false
  rotated : ∀ id row next, db.sessions.get id = some row → row.revokedReason = some .rotated →
    row.replacedBySessionId = some next → h.rotatedFrom next = some id
  shape : ∀ ρ, Shape db (siblings db h.root ρ)
  /-- While the newest session a token was rotated into is live and unused, the newest of them
  are its lineage's live sessions, and none of them has been used. -/
  newest : ∀ id row next row', db.sessions.get id = some row →
    row.revokedReason = some .rotated → row.replacedBySessionId = some next →
    db.sessions.get next = some row' → row'.revokedAt = none → row'.firstUsedAt = none →
    siblings db h.root (h.root id) = newest (children db h.rotatedFrom id) ∧
      (children db h.rotatedFrom id).getLast? = some next ∧
      ∀ child, h.rotatedFrom child = some id → h.used child = false

theorem mem_siblings {root : SessionId → SessionId} {ρ : SessionId} :
    x ∈ siblings db root ρ ↔ x < db.nextSession ∧ db.live x = true ∧ root x = ρ := by
  simp [siblings]

theorem mem_children {rotatedFrom : SessionId → Option SessionId} :
    x ∈ children db rotatedFrom id ↔ x < db.nextSession ∧ rotatedFrom x = some id := by
  simp [children]

theorem siblings_nodup (root : SessionId → SessionId) (ρ : SessionId) :
    (siblings db root ρ).Nodup :=
  List.nodup_range.filter _

theorem siblings_sorted (root : SessionId → SessionId) (ρ : SessionId) :
    (siblings db root ρ).Pairwise (· < ·) :=
  List.pairwise_lt_range.filter _

namespace Lineages

/-- A session that was used is not still to come. -/
theorem lt_of_used (hl : Lineages db h) (hused : h.used x = true) : x < db.nextSession := by
  by_contra hge
  rw [(hl.fresh x (Nat.not_lt.mp hge)).2.1] at hused
  cases hused

/-- A session a token was rotated into is not still to come. -/
theorem lt_of_child (hl : Lineages db h) (hchild : h.rotatedFrom id = some x) :
    id < db.nextSession := by
  by_contra hge
  rw [(hl.fresh id (Nat.not_lt.mp hge)).1] at hchild
  cases hchild

/-- A token is older than the sessions it was rotated into, so it is not still to come. -/
theorem lt_of_parent (hl : Lineages db h) (hchild : h.rotatedFrom id = some x) :
    x < db.nextSession :=
  Nat.lt_trans (hl.child id x hchild).1 (hl.lt_of_child hchild)

/-- A live session is among its lineage's. -/
theorem mem_siblings_self (hl : Lineages db h) (hlive : db.live x = true) :
    x ∈ siblings db h.root (h.root x) := by
  obtain ⟨row, hrow, _⟩ := Db.live_iff.mp hlive
  exact mem_siblings.mpr ⟨hl.bound x row hrow, hlive, rfl⟩

/-- A live session without a rival is the only one of its lineage. -/
theorem eq_of_settled (hl : Lineages db h) (hlive : db.live x = true) (hnext : db.next x = none) :
    siblings db h.root (h.root x) = [x] := by
  have hmem := hl.mem_siblings_self hlive
  have hshape := hl.shape (h.root x)
  generalize siblings db h.root (h.root x) = ids at hmem hshape ⊢
  cases hshape with
  | ended => cases hmem
  | settled y _ => rw [List.mem_singleton.mp hmem]
  | contested _ _ _ _ hring =>
    obtain ⟨row, hrow, hrevoked⟩ := Db.live_iff.mp hlive
    refine absurd ?_ (hring.next_ne_none hmem)
    have hnone : row.replacedBySessionId = none := by simpa [Db.next, hrow] using hnext
    simp [Db.rival, Db.pointee, hrow, hrevoked, hnone]

/-- A live session with a rival is in a ring, unused, and so is its rival. -/
theorem ring_of_next (hl : Lineages db h) (hlive : db.live x = true) {y : SessionId}
    (hnext : db.next x = some y) :
    (2 ≤ (siblings db h.root (h.root x)).length ∧
        (∀ z ∈ siblings db h.root (h.root x), db.isUsed z = false) ∧
        IsRing db.rival (siblings db h.root (h.root x))) ∧
      db.rival x = some y ∧ db.live y = true := by
  have hmem := hl.mem_siblings_self hlive
  have hshape := hl.shape (h.root x)
  have hsib : ∀ z ∈ siblings db h.root (h.root x), db.live z = true :=
    fun z hz => (mem_siblings.mp hz).2.1
  generalize siblings db h.root (h.root x) = ids at hmem hshape hsib ⊢
  cases hshape with
  | ended => cases hmem
  | settled z hz =>
    obtain rfl := List.mem_singleton.mp hmem
    rw [hz] at hnext
    cases hnext
  | contested _ hmin _ hunused hring =>
    obtain ⟨z, hz⟩ := Option.ne_none_iff_exists'.mp (hring.next_ne_none hmem)
    obtain ⟨row, hrow, hrevoked⟩ := Db.live_iff.mp hlive
    have hpoints : db.pointee row = some z := by simpa [Db.rival, hrow, hrevoked] using hz
    have hy : row.replacedBySessionId = some y := by simpa [Db.next, hrow] using hnext
    obtain rfl : z = y :=
      Option.some.inj ((Option.filter_eq_some_iff.mp hpoints).1.symm.trans hy)
    exact ⟨⟨hmin, hunused, hring⟩, hz, hsib z (hring.next_mem hmem hz)⟩

/-- A live session that was used is the only one of its lineage. -/
theorem eq_of_used (hl : Lineages db h) (hlive : db.live x = true) (hused : h.used x = true) :
    siblings db h.root (h.root x) = [x] ∧ db.next x = none := by
  have hmem := hl.mem_siblings_self hlive
  have hshape := hl.shape (h.root x)
  generalize siblings db h.root (h.root x) = ids at hmem hshape ⊢
  cases hshape with
  | ended => cases hmem
  | settled y hy =>
    obtain rfl := List.mem_singleton.mp hmem
    exact ⟨rfl, hy⟩
  | contested _ _ _ hunused _ =>
    obtain ⟨row, hrow, _⟩ := Db.live_iff.mp hlive
    have hno := hunused x hmem
    rw [hl.used x row hrow] at hused
    simp [Db.isUsed, hrow, hused] at hno

/-- A lineage never has more live sessions than the newest that are kept. -/
theorem length_siblings_le (hl : Lineages db h) (ρ : SessionId) :
    (siblings db h.root ρ).length ≤ UNUSED_SESSIONS_KEPT := by
  have hshape := hl.shape ρ
  generalize siblings db h.root ρ = ids at hshape ⊢
  cases hshape with
  | ended => exact Nat.zero_le _
  | settled x _ => exact (by decide : 1 ≤ UNUSED_SESSIONS_KEPT)
  | contested _ _ hle _ _ => exact hle

end Lineages

/-! ### Quiet writes -/

/-- A row that is rewritten without a use, a rotation or a supersession. -/
structure RowQuiet (row row' : AuthSession) : Prop where
  firstUsedAt : row'.firstUsedAt = row.firstUsedAt
  replaced : row'.replacedBySessionId = row.replacedBySessionId ∨ row'.replacedBySessionId = none
  revoked : row'.revokedAt = none → row.revokedAt = none
  rotated : row'.revokedReason = some .rotated → row.revokedReason = some .rotated
  superseded : row'.revokedReason = some .superseded ↔ row.revokedReason = some .superseded
  unrevoked : row'.revokedAt = none → row'.revokedReason = row.revokedReason

theorem RowQuiet.refl (row : AuthSession) : RowQuiet row row :=
  ⟨rfl, Or.inl rfl, id, id, Iff.rfl, fun _ => rfl⟩

/-- A write that leaves every lineage's live sessions as they are, or ends them all. -/
structure Quiet (root : SessionId → SessionId) (db db' : Db) : Prop where
  nextSession : db'.nextSession = db.nextSession
  row : ∀ id row', db'.sessions.get id = some row' →
    ∃ row, db.sessions.get id = some row ∧ RowQuiet row row'
  device : ∃ g : Option DeviceId → Option DeviceId, ∀ id row row',
    db.sessions.get id = some row → db'.sessions.get id = some row' →
    row'.deviceId = g row.deviceId
  lineage : ∀ ρ, (∀ id, root id = ρ → db'.live id = false) ∨
    ∀ id row, root id = ρ → db.sessions.get id = some row → row.revokedAt = none →
      ∃ row', db'.sessions.get id = some row' ∧ row'.revokedAt = none ∧
        row'.replacedBySessionId = row.replacedBySessionId

namespace Quiet

variable {root : SessionId → SessionId}

theorem refl (root : SessionId → SessionId) (db : Db) : Quiet root db db where
  nextSession := rfl
  row := fun _ row hrow => ⟨row, hrow, RowQuiet.refl row⟩
  device := ⟨id, fun _ row row' hrow hrow' => by
    rw [Option.some.inj (hrow.symm.trans hrow')]
    rfl⟩
  lineage := fun _ => Or.inr fun _ row _ hrow hrevoked => ⟨row, hrow, hrevoked, rfl⟩

/-- The same rows under the same ids. -/
theorem of_get_eq (hnext : db'.nextSession = db.nextSession)
    (hget : ∀ k, db'.sessions.get k = db.sessions.get k) : Quiet root db db' where
  nextSession := hnext
  row := fun k row' hrow' => ⟨row', hget k ▸ hrow', RowQuiet.refl row'⟩
  device := ⟨fun d => d, fun k row row' hrow hrow' => by
    rw [hget k, hrow] at hrow'
    rw [← Option.some.inj hrow']⟩
  lineage := fun _ => Or.inr fun k row _ hrow hrevoked => ⟨row, (hget k).trans hrow, hrevoked, rfl⟩

/-- A session that is live after a quiet write was live before. -/
theorem live (hq : Quiet root db db') (hlive : db'.live x = true) : db.live x = true := by
  obtain ⟨row', hrow', hrevoked⟩ := Db.live_iff.mp hlive
  obtain ⟨row, hrow, hquiet⟩ := hq.row x row' hrow'
  exact Db.live_iff.mpr ⟨row, hrow, hquiet.revoked hrevoked⟩

/-- The live sessions of a lineage stay, or none does. -/
theorem siblings_eq (hq : Quiet root db db') (ρ : SessionId) :
    siblings db' root ρ = [] ∨ (siblings db' root ρ = siblings db root ρ ∧
      ∀ x ∈ siblings db root ρ, ∃ row row', db.sessions.get x = some row ∧
        db'.sessions.get x = some row' ∧ row.revokedAt = none ∧ row'.revokedAt = none ∧
        row'.firstUsedAt = row.firstUsedAt ∧
        row'.replacedBySessionId = row.replacedBySessionId) := by
  rcases hq.lineage ρ with hend | hkeep
  · refine Or.inl (List.eq_nil_iff_forall_not_mem.mpr fun x hx => ?_)
    obtain ⟨_, hlive, hroot⟩ := mem_siblings.mp hx
    rw [hend x hroot] at hlive
    cases hlive
  · refine Or.inr ⟨?_, fun x hx => ?_⟩
    · unfold siblings
      rw [hq.nextSession]
      refine List.filter_congr fun x _ => ?_
      by_cases hroot : root x = ρ
      · have hlive : db'.live x = db.live x := by
          rw [Bool.eq_iff_iff]
          refine ⟨hq.live, fun hlive => ?_⟩
          obtain ⟨row, hrow, hrevoked⟩ := Db.live_iff.mp hlive
          obtain ⟨row', hrow', hrevoked', _⟩ := hkeep x row hroot hrow hrevoked
          exact Db.live_iff.mpr ⟨row', hrow', hrevoked'⟩
        rw [hlive]
      · simp [hroot]
    · obtain ⟨_, hlive, hroot⟩ := mem_siblings.mp hx
      obtain ⟨row, hrow, hrevoked⟩ := Db.live_iff.mp hlive
      obtain ⟨row', hrow', hrevoked', hnext⟩ := hkeep x row hroot hrow hrevoked
      obtain ⟨row₀, hrow₀, hquiet⟩ := hq.row x row' hrow'
      obtain rfl := Option.some.inj (hrow.symm.trans hrow₀)
      exact ⟨row, row', hrow, hrow', hrevoked, hrevoked', hquiet.firstUsedAt, hnext⟩

/-- The rivals within a lineage whose live sessions stay are the same. -/
theorem rival_eq {ids : List SessionId} (hring : IsRing db.rival ids)
    (hrows : ∀ x ∈ ids, ∃ row row', db.sessions.get x = some row ∧
        db'.sessions.get x = some row' ∧ row.revokedAt = none ∧ row'.revokedAt = none ∧
        row'.firstUsedAt = row.firstUsedAt ∧
        row'.replacedBySessionId = row.replacedBySessionId) :
    ∀ x ∈ ids, db'.rival x = db.rival x := by
  intro x hx
  obtain ⟨row, row', hrow, hrow', hrevoked, hrevoked', _, hnext⟩ := hrows x hx
  cases hrival : db.rival x with
  | none => exact absurd hrival (hring.next_ne_none hx)
  | some y =>
    have hy := hring.next_mem hx hrival
    obtain ⟨_, _, _, hrowy', _⟩ := hrows y hy
    have hpoints : row.replacedBySessionId = some y := by
      have hp : db.pointee row = some y := by simpa [Db.rival, hrow, hrevoked] using hrival
      exact (Option.filter_eq_some_iff.mp hp).1
    simp [Db.rival, Db.pointee, hrow', hrevoked', hnext, hpoints, hrowy']

end Quiet

/-- A quiet write keeps what holds of the sessions. -/
theorem Lineages.quiet (hl : Lineages db h) (hq : Quiet h.root db db') : Lineages db' h where
  bound := fun id row' hrow' => by
    obtain ⟨row, hrow, _⟩ := hq.row id row' hrow'
    rw [hq.nextSession]
    exact hl.bound id row hrow
  fresh := fun id hid => by
    rw [hq.nextSession] at hid
    exact hl.fresh id hid
  root_le := hl.root_le
  child := hl.child
  next := fun id row' next hrow' hnext => by
    obtain ⟨row, hrow, hquiet⟩ := hq.row id row' hrow'
    rw [hq.nextSession]
    rcases hquiet.replaced with hsame | hnone
    · exact hl.next id row next hrow (hsame ▸ hnext)
    · rw [hnone] at hnext
      cases hnext
  used := fun id row' hrow' => by
    obtain ⟨row, hrow, hquiet⟩ := hq.row id row' hrow'
    rw [hl.used id row hrow, hquiet.firstUsedAt]
  superseded := fun id row' hrow' => by
    obtain ⟨row, hrow, hquiet⟩ := hq.row id row' hrow'
    rw [hl.superseded id row hrow, hquiet.superseded]
  supersededUnused := fun id row' hrow' hreason => by
    obtain ⟨row, hrow, hquiet⟩ := hq.row id row' hrow'
    rw [hquiet.firstUsedAt]
    exact hl.supersededUnused id row hrow (hquiet.superseded.mp hreason)
  unrevoked := fun id row' hrow' hrevoked => by
    obtain ⟨row, hrow, hquiet⟩ := hq.row id row' hrow'
    rw [hquiet.unrevoked hrevoked]
    exact hl.unrevoked id row hrow (hquiet.revoked hrevoked)
  sameDevice := fun x y rowx' rowy' hx' hy' hroot => by
    obtain ⟨g, hg⟩ := hq.device
    obtain ⟨rowx, hx, _⟩ := hq.row x rowx' hx'
    obtain ⟨rowy, hy, _⟩ := hq.row y rowy' hy'
    rw [hg x rowx rowx' hx hx', hg y rowy rowy' hy hy', hl.sameDevice x y rowx rowy hx hy hroot]
  childless := fun id parent hparent => by
    rw [Bool.eq_false_iff]
    intro hlive
    have hdead := hl.childless id parent hparent
    rw [hq.live hlive] at hdead
    cases hdead
  rotated := fun id row' next hrow' hreason hnext => by
    obtain ⟨row, hrow, hquiet⟩ := hq.row id row' hrow'
    rcases hquiet.replaced with hsame | hnone
    · exact hl.rotated id row next hrow (hquiet.rotated hreason) (hsame ▸ hnext)
    · rw [hnone] at hnext
      cases hnext
  shape := fun ρ => by
    rcases hq.siblings_eq ρ with hnil | ⟨hsame, hrows⟩
    · exact hnil ▸ Shape.ended
    · have hshape := hl.shape ρ
      rw [hsame]
      generalize siblings db h.root ρ = ids at hrows hshape
      cases hshape with
      | ended => exact Shape.ended
      | settled x hx =>
        obtain ⟨row, row', hrow, hrow', _, _, _, hnext⟩ := hrows x (List.mem_singleton_self x)
        refine Shape.settled x ?_
        simpa [Db.next, hrow, hrow', hnext] using hx
      | contested _ hmin hmax hunused hring =>
        refine Shape.contested ids hmin hmax (fun x hx => ?_)
          (hring.congr (Quiet.rival_eq hring hrows))
        obtain ⟨row, row', hrow, hrow', _, _, hfirst, _⟩ := hrows x hx
        have hno := hunused x hx
        simpa [Db.isUsed, hrow, hrow', hfirst] using hno
  newest := fun id row' next rown' hrow' hreason hnext hrown' hrevoked hunused => by
    obtain ⟨row, hrow, hquiet⟩ := hq.row id row' hrow'
    obtain ⟨rown, hrown, hquietn⟩ := hq.row next rown' hrown'
    have hsame : row.replacedBySessionId = some next := by
      rcases hquiet.replaced with hsame | hnone
      · exact hsame ▸ hnext
      · rw [hnone] at hnext
        cases hnext
    have hchildren : children db' h.rotatedFrom id = children db h.rotatedFrom id := by
      unfold children
      rw [hq.nextSession]
    rw [hchildren]
    obtain ⟨hnewest, hlast⟩ := hl.newest id row next rown hrow (hquiet.rotated hreason) hsame hrown
      (hquietn.revoked hrevoked) (hquietn.firstUsedAt ▸ hunused)
    -- The successor is live, so its lineage has not ended.
    have hlive : db'.live next = true := Db.live_iff.mpr ⟨rown', hrown', hrevoked⟩
    rcases hq.siblings_eq (h.root id) with hnil | ⟨hkept, _⟩
    · have hmem : next ∈ siblings db' h.root (h.root id) :=
        mem_siblings.mpr ⟨hq.nextSession ▸ hl.bound next rown hrown, hlive,
          (hl.next id row next hrow hsame).2⟩
      rw [hnil] at hmem
      cases hmem
    · exact ⟨hkept.trans hnewest, hlast⟩

/-- The history has seen what the rows show. -/
theorem Lineages.observe_eq (hl : Lineages db h) : h.observe db = h := by
  have hused : (fun id => h.used id || (db.sessions.get id).any (·.firstUsedAt.isSome)) = h.used := by
    ext id
    cases hrow : db.sessions.get id with
    | none => simp
    | some row => simp [hl.used id row hrow]
  have hsuperseded : (fun id => h.superseded id || (db.sessions.get id).any fun row =>
      decide (row.revokedReason = some .superseded)) = h.superseded := by
    ext id
    cases hrow : db.sessions.get id with
    | none => simp
    | some row => simp [← hl.superseded id row hrow]
  unfold History.observe
  rw [hused, hsuperseded]

/-! ### The quiet writes -/

section QuietWrites

variable {root : SessionId → SessionId}

/-- Rewriting one session is quiet if it stays live with the same rival, or if it is the last
live one of its lineage and ends. -/
theorem quiet_updateSession {f : AuthSession → AuthSession}
    (hrow : ∀ row, db.sessions.get id = some row → RowQuiet row (f row))
    (hdevice : ∀ row, (f row).deviceId = row.deviceId)
    (hlive : (∀ row, db.sessions.get id = some row → row.revokedAt = none →
        (f row).revokedAt = none ∧ (f row).replacedBySessionId = row.replacedBySessionId) ∨
      ((∀ k, db.live k = true → root k = root id → k = id) ∧
        ∀ row, db.sessions.get id = some row → (f row).revokedAt ≠ none)) :
    Quiet root db (db.updateSession id f) where
  nextSession := rfl
  row := fun k row' hk => by
    rw [Db.get_updateSession] at hk
    obtain ⟨row, hget, rfl⟩ := Option.map_eq_some_iff.mp hk
    refine ⟨row, hget, ?_⟩
    split
    next heq => exact hrow row (heq ▸ hget)
    next => exact RowQuiet.refl row
  device := ⟨fun d => d, fun k row row' hget hk => by
    rw [Db.get_updateSession, hget] at hk
    obtain rfl := Option.some.inj hk
    split
    · exact hdevice row
    · rfl⟩
  lineage := fun ρ => by
    by_cases hρ : root id = ρ
    · rcases hlive with hstays | ⟨honly, hends⟩
      · refine Or.inr fun k row _ hget hrevoked => ?_
        rw [Db.get_updateSession, hget]
        refine ⟨_, rfl, ?_⟩
        split
        next heq => exact hstays row (heq ▸ hget) hrevoked
        next => exact ⟨hrevoked, rfl⟩
      · -- The others of the lineage are not live, and this one ends.
        refine Or.inl fun k hroot => Bool.eq_false_iff.mpr fun hk => ?_
        obtain ⟨row', hrow', hrevoked⟩ := Db.live_iff.mp hk
        rw [Db.get_updateSession] at hrow'
        obtain ⟨row, hget, rfl⟩ := Option.map_eq_some_iff.mp hrow'
        by_cases heq : k = id
        · rw [if_pos heq] at hrevoked
          exact hends row (heq ▸ hget) hrevoked
        · rw [if_neg heq] at hrevoked
          exact heq (honly k (Db.live_iff.mpr ⟨row, hget, hrevoked⟩) (hroot.trans hρ.symm))
    · refine Or.inr fun k row hroot hget hrevoked => ?_
      rw [Db.get_updateSession, hget]
      have hne : k ≠ id := fun heq => hρ (heq ▸ hroot)
      exact ⟨row, by simp [hne], hrevoked, rfl⟩

/-- What is written to a session that is not live and touches none of what counts. -/
theorem quiet_markReuse (now : Time) : Quiet root db (db.updateSession id (·.markReuse now)) :=
  quiet_updateSession (fun _ _ => ⟨rfl, Or.inl rfl, fun h => h, fun h => h, Iff.rfl, fun _ => rfl⟩)
    (fun _ => rfl) (Or.inl fun _ _ hrevoked => ⟨hrevoked, rfl⟩)

/-- Revoking a session that is not superseded, for a reason other than a rotation or a rival. -/
theorem rowQuiet_revoke {row : AuthSession} {reason : SessionRevokedReason} {now : Time}
    (hrow : row.revokedReason ≠ some .superseded) (hrotated : reason ≠ .rotated)
    (hsuperseded : reason ≠ .superseded) : RowQuiet row (row.revoke reason now) where
  firstUsedAt := rfl
  replaced := Or.inl rfl
  revoked := fun h => by cases h
  rotated := fun h => absurd (Option.some.inj h) hrotated
  superseded := ⟨fun h => absurd (Option.some.inj h) hsuperseded, fun h => absurd h hrow⟩
  unrevoked := fun h => by cases h

theorem quiet_forgetDevices (devices : List DeviceId) : Quiet root db (db.forgetDevices devices) where
  nextSession := rfl
  row := fun k row' hk => by
    rw [Db.get_forgetDevices] at hk
    obtain ⟨row, hget, rfl⟩ := Option.map_eq_some_iff.mp hk
    exact ⟨row, hget, rfl, Or.inl rfl, fun h => h, fun h => h, Iff.rfl, fun _ => rfl⟩
  device := ⟨fun d => d.filter fun d => !devices.contains d, fun k row row' hget hk => by
    rw [Db.get_forgetDevices, hget] at hk
    rw [← Option.some.inj hk]⟩
  lineage := fun _ => Or.inr fun k row _ hget hrevoked => by
    rw [Db.get_forgetDevices, hget]
    exact ⟨_, rfl, hrevoked, rfl⟩

end QuietWrites

namespace Lineages

/-- A live session of a lineage whose live sessions are known. -/
theorem eq_of_siblings (hl : Lineages db h) (honly : siblings db h.root (h.root id) = [id])
    {k : SessionId} (hlive : db.live k = true) (hroot : h.root k = h.root id) : k = id := by
  have hmem := hl.mem_siblings_self hlive
  rw [hroot, honly] at hmem
  exact List.mem_singleton.mp hmem

/-- A session whose token has expired ends, if it has no rival. -/
theorem quiet_expire (hl : Lineages db h) {row : AuthSession} (hrow : db.sessions.get id = some row)
    (hrevoked : row.revokedAt = none) (hnext : row.replacedBySessionId = none) (now : Time) :
    Quiet h.root db (db.updateSession id (·.revoke .expired now)) := by
  have hlive : db.live id = true := Db.live_iff.mpr ⟨row, hrow, hrevoked⟩
  have honly := hl.eq_of_settled hlive (by simp [Db.next, hrow, hnext])
  refine quiet_updateSession (fun row' hrow' => ?_) (fun _ => rfl)
    (Or.inr ⟨fun k hk hroot => hl.eq_of_siblings honly hk hroot, fun _ _ => Option.some_ne_none _⟩)
  obtain rfl := Option.some.inj (hrow.symm.trans hrow')
  refine rowQuiet_revoke ?_ nofun nofun
  rw [hl.unrevoked id row hrow hrevoked]
  exact nofun

/-- A session that was used ends its lineage when it is logged out, and changes nothing that
counts when it has been revoked already. -/
theorem quiet_logout (hl : Lineages db h) (hused : h.used id = true) (now : Time) :
    Quiet h.root db (db.logout id now) := by
  refine quiet_updateSession (fun row hrow => ?_) (fun _ => rfl) ?_
  · have hnot : row.revokedReason ≠ some .superseded := fun hreason => by
      have hfirst := hl.supersededUnused id row hrow hreason
      rw [hl.used id row hrow, hfirst] at hused
      cases hused
    have hquiet : RowQuiet row (row.revoke .logout now) := rowQuiet_revoke hnot nofun nofun
    exact ⟨hquiet.firstUsedAt, hquiet.replaced, hquiet.revoked, hquiet.rotated, hquiet.superseded,
      hquiet.unrevoked⟩
  · by_cases hlive : db.live id = true
    · have honly := (hl.eq_of_used hlive hused).1
      exact Or.inr ⟨fun k hk hroot => hl.eq_of_siblings honly hk hroot,
        fun _ _ => Option.some_ne_none _⟩
    · refine Or.inl fun row hrow hrevoked => ?_
      exact absurd (Db.live_iff.mpr ⟨row, hrow, hrevoked⟩) hlive

/-- Revoking live sessions is quiet if it takes all of a lineage's or none. -/
theorem quiet_revokeAll (hl : Lineages db h) {ids : List SessionId}
    (hlive : ∀ x ∈ ids, db.live x = true)
    (hall : ∀ x ∈ ids, ∀ y, db.live y = true → h.root y = h.root x → y ∈ ids) (now : Time) :
    Quiet h.root db (db.revokeAll ids now) where
  nextSession := rfl
  row := fun k row' hk => by
    rw [Db.get_revokeAll] at hk
    obtain ⟨row, hget, rfl⟩ := Option.map_eq_some_iff.mp hk
    refine ⟨row, hget, ?_⟩
    split
    next hmem =>
      obtain ⟨row₀, hget₀, hrevoked⟩ := Db.live_iff.mp (hlive k (by simpa using hmem))
      obtain rfl := Option.some.inj (hget.symm.trans hget₀)
      refine rowQuiet_revoke ?_ nofun nofun
      rw [hl.unrevoked k row hget hrevoked]
      exact nofun
    next => exact RowQuiet.refl row
  device := ⟨fun d => d, fun k row row' hget hk => by
    rw [Db.get_revokeAll, hget] at hk
    obtain rfl := Option.some.inj hk
    split <;> rfl⟩
  lineage := fun ρ => by
    by_cases htaken : ∃ x ∈ ids, h.root x = ρ
    · obtain ⟨x, hx, rfl⟩ := htaken
      refine Or.inl fun k hroot => Bool.eq_false_iff.mpr fun hk => ?_
      obtain ⟨row', hrow', hrevoked⟩ := Db.live_iff.mp hk
      rw [Db.get_revokeAll] at hrow'
      obtain ⟨row, hget, rfl⟩ := Option.map_eq_some_iff.mp hrow'
      split at hrevoked
      · cases hrevoked
      next hmem =>
        have hk' := hall x hx k (Db.live_iff.mpr ⟨row, hget, hrevoked⟩) hroot
        simp [hk'] at hmem
    · refine Or.inr fun k row hroot hget hrevoked => ?_
      have hk : k ∉ ids := fun hk => htaken ⟨k, hk, hroot⟩
      rw [Db.get_revokeAll, hget]
      exact ⟨row, by simp [hk], hrevoked, rfl⟩

/-- The prune takes no session of a ring. -/
theorem quiet_prune (hl : Lineages db h) (ids : List SessionId) (cutoff : Time) :
    Quiet h.root db (db.pruneExpired ids cutoff) where
  nextSession := rfl
  row := fun k row' hk => by
    rw [Db.get_pruneExpired] at hk
    obtain ⟨row, hget, rfl⟩ := Option.map_eq_some_iff.mp hk
    refine ⟨row, (Option.filter_eq_some_iff.mp hget).1, rfl, ?_, fun h => h, fun h => h, Iff.rfl,
      fun _ => rfl⟩
    show Option.filter _ row.replacedBySessionId = row.replacedBySessionId ∨
      Option.filter _ row.replacedBySessionId = none
    cases row.replacedBySessionId with
    | none => exact Or.inl rfl
    | some next =>
      rw [Option.filter_some]
      split
      · exact Or.inl rfl
      · exact Or.inr rfl
  device := ⟨fun d => d, fun k row row' hget hk => by
    rw [Db.get_pruneExpired, hget] at hk
    obtain ⟨row₀, hget₀, rfl⟩ := Option.map_eq_some_iff.mp hk
    rw [← Option.some.inj (Option.filter_eq_some_iff.mp hget₀).1]
    rfl⟩
  lineage := fun ρ => by
    by_cases htaken : ∃ x row, h.root x = ρ ∧ db.sessions.get x = some row ∧
        row.revokedAt = none ∧ Db.pruned ids cutoff x row = true
    · -- It was the lineage's only live session.
      obtain ⟨x, row, rfl, hrow, hrevoked, hpruned⟩ := htaken
      have hnext : row.replacedBySessionId = none := by
        simp only [Db.pruned, Db.prunable, hrevoked, Option.isSome_none, Bool.false_or,
          Bool.and_eq_true] at hpruned
        simpa using hpruned.2.2
      have honly := hl.eq_of_settled (Db.live_iff.mpr ⟨row, hrow, hrevoked⟩)
        (by simp [Db.next, hrow, hnext])
      refine Or.inl fun k hroot => Bool.eq_false_iff.mpr fun hk => ?_
      obtain ⟨row', hrow', hrevoked'⟩ := Db.live_iff.mp hk
      rw [Db.get_pruneExpired] at hrow'
      obtain ⟨rowk, hget, rfl⟩ := Option.map_eq_some_iff.mp hrow'
      obtain ⟨hrowk, hkept⟩ := Option.filter_eq_some_iff.mp hget
      obtain rfl := hl.eq_of_siblings honly (Db.live_iff.mpr ⟨rowk, hrowk, hrevoked'⟩) hroot
      obtain rfl := Option.some.inj (hrow.symm.trans hrowk)
      simp [hpruned] at hkept
    · -- A live session's rival is live, so neither is taken.
      have hkept : ∀ k row, h.root k = ρ → db.sessions.get k = some row → row.revokedAt = none →
          Db.pruned ids cutoff k row = false := fun k row hroot hget hrevoked =>
        Bool.eq_false_iff.mpr fun hp => htaken ⟨k, row, hroot, hget, hrevoked, hp⟩
      refine Or.inr fun k row hroot hget hrevoked => ?_
      refine ⟨row.link (row.replacedBySessionId.filter fun next =>
        !((db.sessions.select (Db.pruned ids cutoff)).map Prod.fst).contains next), ?_, hrevoked, ?_⟩
      · rw [Db.get_pruneExpired, hget]
        simp [Option.filter, hkept k row hroot hget hrevoked]
      · show Option.filter _ row.replacedBySessionId = row.replacedBySessionId
        cases hnext : row.replacedBySessionId with
        | none => rfl
        | some next =>
          have hlive : db.live k = true := Db.live_iff.mpr ⟨row, hget, hrevoked⟩
          have hpoints : db.next k = some next := by simp [Db.next, hget, hnext]
          obtain ⟨rown, hrown, hrevokedn⟩ := Db.live_iff.mp (hl.ring_of_next hlive hpoints).2.2
          have hrootn := (hl.next k row next hget hnext).2.trans hroot
          rw [Option.filter_some, if_pos]
          simp only [Bool.not_eq_true', List.contains_eq_mem, decide_eq_false_iff_not, List.mem_map,
            not_exists, not_and]
          rintro ⟨k', row'⟩ hmem rfl
          obtain ⟨hget', hp⟩ := (Table.mem_select_iff _ _ _ _).mp hmem
          obtain rfl := Option.some.inj (hrown.symm.trans hget')
          rw [hkept _ rown hrootn hrown hrevokedn] at hp
          cases hp

end Lineages

end TigerDuck.Auth
