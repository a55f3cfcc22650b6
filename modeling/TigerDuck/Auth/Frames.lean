import TigerDuck.Auth.Rings

/-!
# What a transaction leaves to the others

A step keeps the rows, locks and accounts that transactions other than its own hold, and no
session joins a lineage one of whose live sessions another transaction holds (`Frame`). A
refresh does one of three things (`Refreshed`): it refuses, it rotates a live session, or it
rotates a token again; each is a write to the linked sessions it has locked.
-/

namespace TigerDuck.Auth

open Relational Transition

variable {db : Db} {h : History} {id x y k : SessionId} {now : Time}

/-! ### What a refresh does -/

/-- The outcomes of a refresh. -/
inductive Refreshed (cfg : Settings) (db : Db) (h : History) (id : SessionId) (now : Time) :
    Db → Except Detail SessionId → Prop
  | refused (db' : Db) (detail : Detail) : Quiet h.root db db' →
      (∀ k, k ≠ id → db'.sessions.get k = db.sessions.get k) →
      (∀ row row', db.sessions.get id = some row → db'.sessions.get id = some row' →
        row'.deviceId = row.deviceId) →
      Refreshed cfg db h id now db' (.error detail)
  | rotated (row : AuthSession) : db.sessions.get id = some row → row.revokedAt = none →
      Refreshed cfg db h id now (db.rotate cfg id row now).1 (.ok db.nextSession)
  | again (token : AuthSession) (successorId : SessionId) (successor : AuthSession) :
      Retry db h id token successorId successor →
      Refreshed cfg db h id now (db.rotateAgain cfg id token successorId successor now).1
        (.ok db.nextSession)

/-- A refusal that writes nothing. -/
theorem Refreshed.unchanged (cfg : Settings) (detail : Detail) :
    Refreshed cfg db h id now db (.error detail) :=
  .refused db detail (Quiet.refl _ _) (fun _ _ => rfl) fun _ _ hrow hrow' =>
    Option.some.inj (hrow'.symm.trans hrow) ▸ rfl

theorem refreshed_handleRevokedReuse (hl : Lineages db h) (cfg : Settings) {row : AuthSession}
    (hrow : db.sessions.get id = some row) (revokedAt : Time) :
    Refreshed cfg db h id now (db.handleRevokedReuse cfg id row revokedAt now).1
      (db.handleRevokedReuse cfg id row revokedAt now).2 := by
  have hrefused : Refreshed cfg db h id now
      (if now < revokedAt + cfg.authRefreshReuseGrace then
        (db, (.error .sessionRevoked : Except Detail SessionId))
        else (db.updateSession id (·.markReuse now), .error .sessionRevoked)).1
      (if now < revokedAt + cfg.authRefreshReuseGrace then
        (db, (.error .sessionRevoked : Except Detail SessionId))
        else (db.updateSession id (·.markReuse now), .error .sessionRevoked)).2 := by
    split
    · exact .unchanged cfg _
    · refine .refused _ _ (quiet_markReuse now) (fun k hk => ?_) fun row row' hrow hrow' => ?_
      · rw [Db.get_updateSession]
        simp [hk]
      · rw [Db.get_updateSession, hrow] at hrow'
        obtain rfl := Option.some.inj hrow'
        simp [AuthSession.markReuse]
  unfold Db.handleRevokedReuse
  split
  · exact .unchanged cfg _
  dsimp only
  split
  · exact hrefused
  next successorId successor hnext =>
    split
    next hmay =>
      split
      · exact .unchanged cfg _
      · obtain ⟨next, hpoints, hget⟩ := Option.bind_eq_some_iff.mp hnext
        obtain ⟨rown, hrown, heq⟩ := Option.map_eq_some_iff.mp hget
        obtain ⟨rfl, rfl⟩ := Prod.mk.inj heq
        simp only [Db.mayRotateAgain, Option.any_some, Bool.and_eq_true, decide_eq_true_eq] at hmay
        have hid : (db.rotateAgain cfg id row next rown now).2 = db.nextSession := rfl
        rw [hid]
        exact .again row next rown ⟨hl, hrow, hmay.1, hpoints, hrown, hmay.2.1, hmay.2.2⟩
    next => exact hrefused

/-- **What a refresh does.** -/
theorem refreshed (hl : Lineages db h) (cfg : Settings) (active : Bool) :
    Refreshed cfg db h id now (db.refresh cfg id active now).1 (db.refresh cfg id active now).2 := by
  unfold Db.refresh
  split
  · exact .unchanged cfg _
  next row hrow =>
    split
    · exact .unchanged cfg _
    · split
      · exact refreshed_handleRevokedReuse hl cfg hrow _
      next hrevoked =>
        split
        · split
          next hnext =>
            refine .refused _ _ (hl.quiet_expire hrow hrevoked hnext now) (fun k hk => ?_)
              fun row row' hrow hrow' => ?_
            · rw [Db.get_updateSession]
              simp [hk]
            · rw [Db.get_updateSession, hrow] at hrow'
              obtain rfl := Option.some.inj hrow'
              simp [AuthSession.revoke]
          next => exact .unchanged cfg _
        · exact .rotated row hrow hrevoked

/-- The history of a refresh. -/
def History.refreshed (h : History) (id : SessionId) : Except Detail SessionId → History
  | .ok newId => h.rotate id newId
  | .error _ => h

@[simp]
theorem History.used_refreshed (h : History) (id : SessionId) (result : Except Detail SessionId) :
    (h.refreshed id result).used = h.used := by
  cases result <;> rfl

namespace Refreshed

variable {cfg : Settings} {db' : Db} {result : Except Detail SessionId}

/-- A refresh keeps what holds of the sessions. -/
theorem lineages (hr : Refreshed cfg db h id now db' result) (hl : Lineages db h) :
    Lineages db' ((h.refreshed id result).observe db') := by
  cases hr with
  | refused _ detail hquiet _ _ =>
    have hl' := hl.quiet hquiet
    exact hl'.observe_eq.symm ▸ hl'
  | rotated row hrow hrevoked => exact hl.rotate hrow hrevoked cfg now
  | again token successorId successor hretry => exact hretry.lineages_rotateAgain cfg now

/-- Only linked sessions are written. -/
theorem get_of_not_linked (hr : Refreshed cfg db h id now db' result) (hl : Lineages db h)
    (hk : k ∉ db.linkedIds id) (hlt : k < db.nextSession) :
    db'.sessions.get k = db.sessions.get k := by
  have hne : ∀ {row}, db.sessions.get id = some row → k ≠ id := fun hrow heq =>
    hk ((mem_linkedIds hrow).mpr (Or.inl heq))
  cases hr with
  | refused _ detail hquiet hother _ =>
    by_cases heq : k = id
    · -- The session itself is linked to itself, unless it is not there.
      cases hrow : db.sessions.get id with
      | none =>
        rw [heq, hrow, Option.eq_none_iff_forall_ne_some]
        intro row' hrow'
        obtain ⟨row, hrow'', _⟩ := hquiet.row id row' hrow'
        rw [hrow] at hrow''
        cases hrow''
      | some row => exact absurd heq (hne hrow)
    · exact hother k heq
  | rotated row hrow hrevoked =>
    have hlive : db.live id = true := Db.live_iff.mpr ⟨row, hrow, hrevoked⟩
    have hsettled : db.settled id row now = if row.revokedAt = none ∧
        row.replacedBySessionId ≠ none then db.settleContest id now else db := by
      simp [Db.settled, hrevoked]
    have hnot : k ∉ siblings db h.root (h.root id) := fun hmem =>
      hk ((hl.mem_linkedIds_of_live hlive).mpr hmem)
    rw [get_rotate (hl.bound id row hrow) cfg row now _ hsettled (nextSession_settled row),
      if_neg (Nat.ne_of_lt hlt), if_neg (hne hrow), get_settled hl hrow hrevoked,
      if_neg (hne hrow), if_neg hnot]
  | again token successorId successor hretry =>
    have hlinked := hl.mem_linkedIds_of_dead (y := k) hretry.token_row hretry.next
      hretry.successor_live
    have hnot : k ∉ Retry.ring db h id := fun hmem => hk (hlinked.mpr (Or.inr hmem))
    have hsuccessor : k ≠ successorId := fun heq => hnot (heq ▸ hretry.successor_mem)
    rw [hretry.get_rotateAgain, rowsWith, if_neg (Nat.ne_of_lt hlt), if_neg (hne hretry.token_row),
      if_neg hsuccessor, if_neg fun hmem => hnot (List.mem_of_mem_take hmem)]

/-- A refresh makes a session, the next of the sequence, or none. -/
theorem nextSession (hr : Refreshed cfg db h id now db' result) :
    (∃ detail, result = .error detail ∧ db'.nextSession = db.nextSession) ∨
      (result = .ok db.nextSession ∧ db'.nextSession = db.nextSession + 1) := by
  cases hr with
  | refused _ detail hquiet _ _ => exact Or.inl ⟨detail, rfl, hquiet.nextSession⟩
  | rotated row _ _ => exact Or.inr ⟨rfl, nextSession_rotate cfg row now⟩
  | again _ _ _ _ => exact Or.inr ⟨rfl, Retry.nextSession_rotateAgain cfg now⟩

/-- The live sessions of the lineage a session is made in are linked. -/
theorem mem_linkedIds (hr : Refreshed cfg db h id now db' (.ok x)) (hl : Lineages db h)
    (hlive : db.live y = true) (hroot : h.root y = h.root id) : y ∈ db.linkedIds id := by
  have hmem := hl.mem_siblings_self hlive
  rw [hroot] at hmem
  cases hr with
  | rotated row hrow hrevoked =>
    exact (hl.mem_linkedIds_of_live (Db.live_iff.mpr ⟨row, hrow, hrevoked⟩)).mpr hmem
  | again token successorId successor hretry =>
    exact (hl.mem_linkedIds_of_dead hretry.token_row hretry.next hretry.successor_live).mpr
      (Or.inr hmem)

/-- A session that is there was there before. -/
theorem isSome_of_isSome (hr : Refreshed cfg db h id now db' result) (hl : Lineages db h)
    (hrow : (db'.sessions.get k).isSome = true) (hlt : k < db.nextSession) :
    (db.sessions.get k).isSome = true := by
  by_cases hlinked : k ∈ db.linkedIds id
  · exact row_of_mem_linkedIds hlinked
  · rwa [hr.get_of_not_linked hl hlinked hlt] at hrow

theorem root_eq (hr : Refreshed cfg db h id now db' result) (hlt : k < db.nextSession) :
    (h.refreshed id result).root k = h.root k := by
  cases hr with
  | refused _ _ _ _ _ => rfl
  | rotated _ _ _ => exact (rotate_root _ _ _ _).trans (if_neg (Nat.ne_of_lt hlt))
  | again _ _ _ _ => exact (rotate_root _ _ _ _).trans (if_neg (Nat.ne_of_lt hlt))

theorem rotatedFrom_eq (hr : Refreshed cfg db h id now db' result) (hlt : k < db.nextSession) :
    (h.refreshed id result).rotatedFrom k = h.rotatedFrom k := by
  cases hr with
  | refused _ _ _ _ _ => rfl
  | rotated _ _ _ => exact (rotate_rotatedFrom _ _ _ _).trans (if_neg (Nat.ne_of_lt hlt))
  | again _ _ _ _ => exact (rotate_rotatedFrom _ _ _ _).trans (if_neg (Nat.ne_of_lt hlt))

/-- A session that is not live does not become live. -/
theorem live_of_live (hr : Refreshed cfg db h id now db' result) (hl : Lineages db h)
    (hlive : db'.live k = true) (hlt : k < db.nextSession) : db.live k = true := by
  obtain ⟨row', hrow', hrevoked'⟩ := Db.live_iff.mp hlive
  cases hr with
  | refused _ detail hquiet _ _ => exact hquiet.live hlive
  | rotated row hrow hrevoked =>
    have hsettled : db.settled id row now = if row.revokedAt = none ∧
        row.replacedBySessionId ≠ none then db.settleContest id now else db := by
      simp [Db.settled, hrevoked]
    rw [get_rotate (hl.bound id row hrow) cfg row now _ hsettled (nextSession_settled row),
      if_neg (Nat.ne_of_lt hlt)] at hrow'
    by_cases hk : k = id
    · subst hk
      exact Db.live_iff.mpr ⟨row, hrow, hrevoked⟩
    · rw [if_neg hk, get_settled hl hrow hrevoked, if_neg hk] at hrow'
      split at hrow'
      next hmem => exact (mem_siblings.mp hmem).2.1
      next => exact Db.live_iff.mpr ⟨row', hrow', hrevoked'⟩
  | again token successorId successor hretry =>
    obtain ⟨_, row, hrow, hrevoked, _⟩ :=
      hretry.live_before cfg now hrow' hrevoked' (Nat.ne_of_lt hlt)
    exact Db.live_iff.mpr ⟨row, hrow, hrevoked⟩

end Refreshed

/-! ### Frames -/

/-- The transaction whose step it is, if it is not over at once. -/
def Label.owner : Label → Option TxnId
  | .login _ _ _ => none
  | .refresh t _ => some t
  | .request t _ _ _ => some t
  | .lockMissing t => some t
  | .lockNext t => some t
  | .lockSelf t _ => some t
  | .finishRefresh t _ _ => some t
  | .finishClaim t _ => some t
  | .logout t _ => some t
  | .startRemoval t _ _ => some t
  | .removal t => some t
  | .commitRemoval t => some t
  | .prune _ _ => none
  | .abort t => some t

/-- A step that touches neither rows nor history, only its own transaction and its locks. -/
structure Local (s s' : State) (t : TxnId) : Prop where
  db : s'.db = s.db
  history : s'.history = s.history
  txns : ∀ t', t' ≠ t → s'.txns t' = s.txns t'
  rows : ∀ k t', t' ≠ t → s.rows k = some t' → s'.rows k = some t'
  accounts : ∀ u t', t' ≠ t → s.accounts u = some t' → s'.accounts u = some t'

/-- What a step leaves to the transactions other than its own. -/
structure Frame (s s' : State) (owner : Option TxnId) : Prop where
  txns : ∀ t, some t ≠ owner → s'.txns t = s.txns t
  rows : ∀ k t, some t ≠ owner → s.rows k = some t →
    s'.rows k = some t ∧ (k < s.db.nextSession → s'.db.sessions.get k = s.db.sessions.get k)
  accounts : ∀ u t, some t ≠ owner → s.accounts u = some t → s'.accounts u = some t
  nextSession : s.db.nextSession ≤ s'.db.nextSession
  gone : ∀ k, k < s.db.nextSession → (s'.db.sessions.get k).isSome = true →
    (s.db.sessions.get k).isSome = true
  live : ∀ k, k < s.db.nextSession → s'.db.live k = true → s.db.live k = true
  root : ∀ k, k < s.db.nextSession → s'.history.root k = s.history.root k
  rotatedFrom : ∀ k, k < s.db.nextSession → s'.history.rotatedFrom k = s.history.rotatedFrom k
  used : ∀ k, s.history.used k = true → s'.history.used k = true
  /-- No session joins the lineage of a live one that another transaction holds. -/
  born : ∀ k, s.db.nextSession ≤ k → k < s'.db.nextSession → ∀ x t, some t ≠ owner →
    s.rows x = some t → s.db.live x = true → s'.history.root k ≠ s.history.root x

namespace Local

variable {s s' s'' : State} {t : TxnId}

theorem refl (s : State) (t : TxnId) : Local s s t :=
  ⟨rfl, rfl, fun _ _ => rfl, fun _ _ _ h => h, fun _ _ _ h => h⟩

theorem trans (h₁ : Local s s' t) (h₂ : Local s' s'' t) : Local s s'' t where
  db := h₂.db.trans h₁.db
  history := h₂.history.trans h₁.history
  txns := fun t' hne => (h₂.txns t' hne).trans (h₁.txns t' hne)
  rows := fun k t' hne h => h₂.rows k t' hne (h₁.rows k t' hne h)
  accounts := fun u t' hne h => h₂.accounts u t' hne (h₁.accounts u t' hne h)

theorem setTxn (s : State) (t : TxnId) (txn : Txn) : Local s (s.setTxn t txn) t :=
  ⟨rfl, rfl, fun _ hne => Function.update_of_ne hne _ _, fun _ _ _ h => h, fun _ _ _ h => h⟩

theorem finish (s : State) (t : TxnId) : Local s (s.finish t) t :=
  ⟨rfl, rfl, fun _ hne => Function.update_of_ne hne _ _,
    fun _ _ hne h => RowLocks.release_of_held h hne,
    fun _ _ hne h => RowLocks.release_of_held h hne⟩

theorem lockRow (h : s.available t k = true) : Local s (s.lockRow t k) t :=
  ⟨rfl, rfl, fun _ _ => rfl,
    fun _ _ _ hheld => RowLocks.lock_of_held hheld (of_decide_eq_true h), fun _ _ _ h => h⟩

theorem handOn (s : State) (t : TxnId) (id : SessionId) (logout : Bool) :
    Local s (s.handOn t id logout).1 t := by
  unfold State.handOn
  split
  · exact (finish s t).trans (setTxn _ t _)
  · exact finish s t

/-- A local step is a frame. -/
theorem frame (h : Local s s' t) : Frame s s' (some t) where
  txns := fun t' hne => h.txns t' fun heq => hne (congrArg some heq)
  rows := fun k t' hne hheld =>
    ⟨h.rows k t' (fun heq => hne (congrArg some heq)) hheld, fun _ => by rw [h.db]⟩
  accounts := fun u t' hne hheld => h.accounts u t' (fun heq => hne (congrArg some heq)) hheld
  nextSession := Nat.le_of_eq (by rw [h.db])
  gone := fun k _ hk => by rwa [h.db] at hk
  live := fun k _ hk => by rwa [h.db] at hk
  root := fun k _ => by rw [h.history]
  rotatedFrom := fun k _ => by rw [h.history]
  used := fun k hk => by rwa [h.history]
  born := fun k hge hlt => absurd hge (Nat.not_le.mpr (by rwa [h.db] at hlt))

end Local

/-- A frame goes on through a local step. -/
theorem Frame.trans_local {s s' s'' : State} {t : TxnId} (hf : Frame s s' (some t))
    (hl : Local s' s'' t) : Frame s s'' (some t) where
  txns := fun t' hne => (hl.txns t' fun heq => hne (congrArg some heq)).trans (hf.txns t' hne)
  rows := fun k t' hne hheld => by
    obtain ⟨hrows, hget⟩ := hf.rows k t' hne hheld
    refine ⟨hl.rows k t' (fun heq => hne (congrArg some heq)) hrows, fun hlt => ?_⟩
    rw [hl.db, hget hlt]
  accounts := fun u t' hne hheld =>
    hl.accounts u t' (fun heq => hne (congrArg some heq)) (hf.accounts u t' hne hheld)
  nextSession := by
    rw [hl.db]
    exact hf.nextSession
  gone := fun k hlt hk => hf.gone k hlt (by rwa [hl.db] at hk)
  live := fun k hlt hk => hf.live k hlt (by rwa [hl.db] at hk)
  root := fun k hlt => by rw [hl.history, hf.root k hlt]
  rotatedFrom := fun k hlt => by rw [hl.history, hf.rotatedFrom k hlt]
  used := fun k hk => by
    rw [hl.history]
    exact hf.used k hk
  born := fun k hge hlt => by
    rw [hl.history]
    exact hf.born k hge (by rwa [hl.db] at hlt)

/-- A quiet write to rows no other transaction holds. -/
theorem Quiet.frame {s s' : State} {owner : Option TxnId}
    (hq : Quiet s.history.root s.db s'.db) (htxns : s'.txns = s.txns) (hrows : s'.rows = s.rows)
    (haccounts : s'.accounts = s.accounts) (hroot : s'.history.root = s.history.root)
    (hfrom : s'.history.rotatedFrom = s.history.rotatedFrom)
    (hused : ∀ k, s.history.used k = true → s'.history.used k = true)
    (hheld : ∀ k t, some t ≠ owner → s.rows k = some t →
      s'.db.sessions.get k = s.db.sessions.get k) : Frame s s' owner where
  txns := fun t _ => by rw [htxns]
  rows := fun k t hne h => ⟨by rwa [hrows], fun _ => hheld k t hne h⟩
  accounts := fun u t _ h => by rwa [haccounts]
  nextSession := Nat.le_of_eq hq.nextSession.symm
  gone := fun k _ hk => by
    obtain ⟨row', hrow'⟩ := Option.isSome_iff_exists.mp hk
    obtain ⟨row, hrow, _⟩ := hq.row k row' hrow'
    exact Option.isSome_iff_exists.mpr ⟨row, hrow⟩
  live := fun k _ hk => hq.live hk
  root := fun k _ => by rw [hroot]
  rotatedFrom := fun k _ => by rw [hfrom]
  used := hused
  born := fun k hge hlt => absurd hge (Nat.not_le.mpr (by rwa [hq.nextSession] at hlt))

end TigerDuck.Auth
