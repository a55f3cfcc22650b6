import TigerDuck.Auth.Locks

/-!
# What a step does to the sessions

A step leaves the sessions as they are or makes one of the writes of `Auth.Sessions`
(`Effect`). A new session is the first of a sign-in or joins a lineage that has a live session
(`born_of_act`), so a lineage that has ended stays so.
-/

namespace TigerDuck.Auth

open Relational Transition

variable {s s' : State} {t : TxnId} {id x y k : SessionId} {now : Time} {cfg : Settings}
  {answer : Option Answer}

/-- What a transaction is about. -/
inductive Subject
  | refresh (id : SessionId)
  | request (id : SessionId) (logout : Bool)
  | removal (device : DeviceId)
  deriving DecidableEq, Repr

def Txn.subject : Txn → Subject
  | .refresh contest => .refresh contest.id
  | .lockSelf id signsOut => .request id signsOut
  | .claimContest contest signsOut => .request contest.id signsOut
  | .logout id => .request id true
  | .removal device _ _ _ => .removal device

/-- What a step does to the sessions and to what has happened. -/
inductive Effect (cfg : Settings) (s s' : State) : Label → Prop
  | local (l : Label) : s'.db = s.db → s'.history = s.history → Effect cfg s s' l
  | used (l : Label) (id : SessionId) (row : AuthSession) (now : Time) :
      (∃ t txn logout, s.txns t = some txn ∧ txn.subject = .request id logout) →
      s.db.sessions.get id = some row → row.revokedAt = none →
      s'.db = (s.db.settled id row now).updateSession id (·.use now) →
      s'.history = s.history.observe s'.db → Effect cfg s s' l
  | refreshed (t : TxnId) (c : Contest) (active : Bool) (now : Time) :
      s.txns t = some (.refresh c) → s'.db = (s.db.refresh cfg c.id active now).1 →
      s'.history =
        (s.history.refreshed c.id (s.db.refresh cfg c.id active now).2).observe s'.db →
      Effect cfg s s' (.finishRefresh t active now)
  | signedIn (device : DeviceId) (replaced : List DeviceId) (now : Time) :
      s.accounts device.userId = none →
      s'.db = (s.db.forgetDevices replaced).login cfg device now →
      s'.history = (s.history.login s.db.nextSession device).observe s'.db →
      Effect cfg s s' (.login device replaced now)
  | loggedOut (t : TxnId) (id : SessionId) (row : AuthSession) (now : Time) :
      s.txns t = some (.logout id) → s.db.sessions.get id = some row →
      s.history.used id = true → s'.db = s.db.logout id now →
      s'.history = { s.history with
        loggedOut := Function.update s.history.loggedOut id true } →
      Effect cfg s s' (.logout t now)
  | removed (t : TxnId) (device : DeviceId) (now : Time) (revoked : List SessionId) :
      s.txns t = some (.removal device now revoked .done) →
      s'.db = s.db.revokeAll revoked now →
      s'.history = { s.history with removed := Function.update s.history.removed device true } →
      Effect cfg s s' (.commitRemoval t)
  | pruned (ids : List SessionId) (cutoff : Time) : s'.db = s.db.pruneExpired ids cutoff →
      s'.history = s.history → Effect cfg s s' (.prune ids cutoff)

theorem Local.effect (h : Local s s' t) (l : Label) : Effect cfg s s' l :=
  .local l h.db h.history

/-- The effect of a first use that is accepted. -/
theorem effect_use (l : Label) {row : AuthSession} {db' : Db} {logout : Bool}
    (htxn : ∃ t txn logout, s.txns t = some txn ∧ txn.subject = .request id logout)
    (hrow : s.db.sessions.get id = some row) (hok : s.db.recordFirstUse id row now = (db', .ok ()))
    (h : some ((s.write db').handOn t id logout) = some (s', answer)) : Effect cfg s s' l := by
  obtain ⟨hrevoked, rfl⟩ := recordFirstUse_eq hok
  obtain rfl := (congrArg Prod.fst (Option.some.inj h)).symm
  have hlocal := Local.handOn
    (s.write ((s.db.settled id row now).updateSession id (·.use now))) t id logout
  refine .used l id row now htxn hrow hrevoked hlocal.db ?_
  rw [hlocal.history, hlocal.db]
  rfl

theorem local_lockNext {txn : Txn} {c : Contest} (hstep : s.lockNext t txn c = some s') :
    Local s s' t := by
  unfold State.lockNext at hstep
  split at hstep
  · cases hstep
  next id rest _ =>
    dsimp only at hstep
    split at hstep
    next =>
      obtain rfl := Option.some.inj hstep
      exact Local.setTxn s t _
    next =>
      split at hstep
      next hfree =>
        obtain rfl := Option.some.inj hstep
        exact (Local.setTxn s t (txn.withContest { c with todo := rest })).trans
          (Local.lockRow hfree)
      next => cases hstep

theorem effect_lockSelf (l : Label) {logout : Bool} (htxn : s.txns t = some (.lockSelf id logout))
    (hstep : s.lockSelf t id logout now = some (s', answer)) : Effect cfg s s' l := by
  unfold State.lockSelf at hstep
  split at hstep
  next =>
    obtain rfl := (congrArg Prod.fst (Option.some.inj hstep)).symm
    exact (Local.handOn s t id logout).effect l
  next row hrow =>
    split at hstep
    next => cases hstep
    next hfree =>
      have hfree' : s.available t id = true := Bool.not_eq_false _ ▸ hfree
      split at hstep
      next =>
        obtain ⟨rfl, _⟩ := Prod.mk.inj (Option.some.inj hstep)
        exact ((Local.lockRow hfree').trans
          (Local.setTxn (s.lockRow t id) t (.claimContest ⟨id, [], []⟩ logout))).effect l
      next =>
        split at hstep
        next =>
          obtain ⟨rfl, _⟩ := Prod.mk.inj (Option.some.inj hstep)
          exact (Local.finish s t).effect l
        next db' hok => exact effect_use l ⟨t, _, logout, htxn, rfl⟩ hrow hok hstep

theorem effect_finishClaim (l : Label) {c : Contest} {logout : Bool}
    (htxn : s.txns t = some (.claimContest c logout))
    (hstep : s.finishClaim t c logout now = some (s', answer)) : Effect cfg s s' l := by
  unfold State.finishClaim at hstep
  split at hstep
  next =>
    split at hstep
    next =>
      obtain ⟨rfl, _⟩ := Prod.mk.inj (Option.some.inj hstep)
      exact (Local.finish s t).effect l
    next row hrow =>
      split at hstep
      next =>
        obtain ⟨rfl, _⟩ := Prod.mk.inj (Option.some.inj hstep)
        exact (Local.finish s t).effect l
      next db' hok => exact effect_use l ⟨t, _, logout, htxn, rfl⟩ hrow hok hstep
  next => cases hstep

/-- A logout writes the session it read, if that is still there. -/
theorem logout_cases (hs : Sound s) (htxn : s.txns t = some (.logout id))
    (hstep : s.logout t id now = some (s', answer)) :
    (s.db.sessions.get id = none ∧ s' = s.finish t) ∨
      ∃ row, s.db.sessions.get id = some row ∧ s.history.used id = true ∧
        s'.db = s.db.logout id now ∧ s'.history = { s.history with
          loggedOut := Function.update s.history.loggedOut id true } := by
  have hheld : id < s.db.nextSession ∧
    ((s.db.sessions.get id).isSome = true → s.history.used id = true) := hs.held t _ htxn
  unfold State.logout at hstep
  split at hstep
  next hgone =>
    obtain ⟨rfl, _⟩ := Prod.mk.inj (Option.some.inj hstep)
    exact Or.inl ⟨hgone, rfl⟩
  next row hrow =>
    split at hstep
    next =>
      obtain rfl := (congrArg Prod.fst (Option.some.inj hstep)).symm
      have hused := hheld.2 (by rw [hrow]; rfl)
      have hl' := hs.lineages.quiet (hs.lineages.quiet_logout hused now)
      refine Or.inr ⟨row, hrow, hused, rfl, ?_⟩
      dsimp only [State.finish, State.write]
      rw [hl'.observe_eq]
    next => cases hstep

theorem effect_logout (hs : Sound s) (htxn : s.txns t = some (.logout id))
    (hstep : s.logout t id now = some (s', answer)) : Effect cfg s s' (.logout t now) := by
  rcases logout_cases hs htxn hstep with ⟨_, rfl⟩ | ⟨row, hrow, hused, hdb, hhistory⟩
  · exact (Local.finish s t).effect _
  · exact .loggedOut t id row now htxn hrow hused hdb hhistory

theorem effect_removal {device : DeviceId} {at_ : Time} {revoked : List SessionId} {pass : Pass}
    (l : Label) (hstep : s.removal t device at_ revoked pass = some s') : Effect cfg s s' l := by
  unfold State.removal at hstep
  split at hstep
  next =>
    obtain rfl := Option.some.inj hstep
    exact (Local.setTxn s t _).effect l
  next since acquired id todo skipped =>
    split at hstep
    next =>
      obtain rfl := Option.some.inj hstep
      exact (Local.setTxn s t _).effect l
    next =>
      split at hstep
      next => cases hstep
      next hfree =>
        have hfree' : s.available t id = true := Bool.not_eq_false _ ▸ hfree
        split at hstep
        next =>
          obtain rfl := Option.some.inj hstep
          exact ((Local.lockRow hfree').trans (Local.setTxn (s.lockRow t id) t
            (.removal device at_ revoked (.locking since (acquired ++ [id]) todo skipped)))).effect l
        next =>
          obtain rfl := Option.some.inj hstep
          exact (Local.setTxn s t _).effect l
  next =>
    obtain rfl := Option.some.inj hstep
    exact (Local.setTxn s t _).effect l
  next =>
    obtain rfl := Option.some.inj hstep
    exact (Local.setTxn s t _).effect l
  next => cases hstep

theorem effect_commitRemoval (hs : Sound s) {device : DeviceId} {at_ : Time}
    {revoked : List SessionId} (htxn : s.txns t = some (.removal device at_ revoked .done)) :
    Effect cfg s (s.commitRemoval t device at_ revoked) (.commitRemoval t) := by
  have hheld : RemovalHeld s t device revoked .done := hs.held t _ htxn
  have hl' := hs.lineages.quiet (hheld.quiet hs.lineages at_)
  refine .removed t device at_ revoked htxn rfl ?_
  dsimp only [State.commitRemoval, State.finish, State.write]
  rw [hl'.observe_eq]

/-- A sign-in has its student's account. -/
theorem accounts_of_login {device : DeviceId} {replaced : List DeviceId}
    (hstep : s.login cfg device replaced now = some s') : s.accounts device.userId = none := by
  unfold State.login at hstep
  obtain ⟨⟨hfree, _⟩, _⟩ := Option.ite_none_right_eq_some.mp hstep
  rw [List.any_cons, Bool.or_eq_false_iff] at hfree
  exact Option.isNone_iff_eq_none.mp (Option.isSome_eq_false_iff.mp hfree.1)

theorem effect_login {device : DeviceId} {replaced : List DeviceId}
    (hstep : s.login cfg device replaced now = some s') :
    Effect cfg s s' (.login device replaced now) := by
  have hfree := accounts_of_login hstep
  unfold State.login at hstep
  obtain ⟨_, hsome⟩ := Option.ite_none_right_eq_some.mp hstep
  obtain rfl := Option.some.inj hsome
  exact .signedIn device replaced now hfree rfl rfl

theorem effect_prune (hs : Sound s) {ids : List SessionId} {cutoff : Time}
    (hstep : s.prune ids cutoff = some s') : Effect cfg s s' (.prune ids cutoff) := by
  have hl' := hs.lineages.quiet (hs.lineages.quiet_prune ids cutoff)
  unfold State.prune at hstep
  dsimp only at hstep
  split at hstep
  next =>
    obtain rfl := Option.some.inj hstep
    exact .pruned ids cutoff rfl hl'.observe_eq
  next => cases hstep

theorem Local.startRefresh : Local s (s.startRefresh t id).1 t := by
  unfold State.startRefresh
  split
  · exact Local.refl s t
  · exact Local.setTxn s t _

theorem Local.startRequest (logout active : Bool) :
    Local s (s.startRequest t id logout active).1 t := by
  unfold State.startRequest
  split
  · exact Local.refl s t
  · split
    · exact Local.refl s t
    · split
      · split
        · exact Local.setTxn s t _
        · exact Local.refl s t
      · split <;> exact Local.setTxn s t _

/-- **What a step does to the sessions.** -/
theorem effect_act (hs : Sound s) {l : Label} (hact : act cfg s l = some (s', answer)) :
    Effect cfg s s' l := by
  cases l with
  | login device replaced now =>
    obtain ⟨s₁, hlogin, heq⟩ := Option.map_eq_some_iff.mp hact
    obtain ⟨rfl, _⟩ := Prod.mk.inj heq
    exact effect_login hlogin
  | refresh t id =>
    obtain ⟨_, hsome⟩ := Option.ite_none_right_eq_some.mp hact
    obtain rfl := (congrArg Prod.fst (Option.some.inj hsome)).symm
    exact Local.startRefresh.effect _
  | request t id logout active =>
    obtain ⟨_, hsome⟩ := Option.ite_none_right_eq_some.mp hact
    obtain rfl := (congrArg Prod.fst (Option.some.inj hsome)).symm
    exact (Local.startRequest logout active).effect _
  | lockMissing t =>
    obtain ⟨txn, _, hbind⟩ := Option.bind_eq_some_iff.mp hact
    obtain ⟨c, _, hmap⟩ := Option.bind_eq_some_iff.mp hbind
    obtain ⟨s₁, hstep, heq⟩ := Option.map_eq_some_iff.mp hmap
    obtain ⟨rfl, _⟩ := Prod.mk.inj heq
    obtain ⟨_, hsome⟩ := Option.ite_none_right_eq_some.mp hstep
    obtain rfl := Option.some.inj hsome
    exact (Local.setTxn s t _).effect _
  | lockNext t =>
    obtain ⟨txn, _, hbind⟩ := Option.bind_eq_some_iff.mp hact
    obtain ⟨c, _, hmap⟩ := Option.bind_eq_some_iff.mp hbind
    obtain ⟨s₁, hstep, heq⟩ := Option.map_eq_some_iff.mp hmap
    obtain ⟨rfl, _⟩ := Prod.mk.inj heq
    exact (local_lockNext hstep).effect _
  | lockSelf t now =>
    simp only [act] at hact
    split at hact
    next id logout htxn => exact effect_lockSelf _ htxn hact
    next => cases hact
  | finishRefresh t active now =>
    simp only [act] at hact
    split at hact
    next c htxn =>
      obtain ⟨_, rfl, _⟩ := finishRefresh_eq hact
      exact .refreshed t c active now htxn rfl rfl
    next => cases hact
  | finishClaim t now =>
    simp only [act] at hact
    split at hact
    next c logout htxn => exact effect_finishClaim _ htxn hact
    next => cases hact
  | logout t now =>
    simp only [act] at hact
    split at hact
    next id htxn => exact effect_logout hs htxn hact
    next => cases hact
  | startRemoval t device now =>
    obtain ⟨_, hsome⟩ := Option.ite_none_right_eq_some.mp hact
    obtain ⟨s₁, hstep, heq⟩ := Option.map_eq_some_iff.mp hsome
    obtain ⟨rfl, _⟩ := Prod.mk.inj heq
    obtain ⟨_, hsome⟩ := Option.ite_none_right_eq_some.mp hstep
    obtain rfl := Option.some.inj hsome
    exact .local _ rfl rfl
  | removal t =>
    simp only [act] at hact
    split at hact
    next device now revoked pass _ =>
      obtain ⟨s₁, hstep, heq⟩ := Option.map_eq_some_iff.mp hact
      obtain ⟨rfl, _⟩ := Prod.mk.inj heq
      exact effect_removal _ hstep
    next => cases hact
  | commitRemoval t =>
    simp only [act] at hact
    split at hact
    next device now revoked htxn =>
      obtain ⟨rfl, _⟩ := Prod.mk.inj (Option.some.inj hact)
      exact effect_commitRemoval hs htxn
    next => cases hact
  | prune ids cutoff =>
    obtain ⟨s₁, hstep, heq⟩ := Option.map_eq_some_iff.mp hact
    obtain ⟨rfl, _⟩ := Prod.mk.inj heq
    exact effect_prune hs hstep
  | abort t =>
    obtain ⟨_, hsome⟩ := Option.ite_none_left_eq_some.mp hact
    obtain ⟨rfl, _⟩ := Prod.mk.inj (Option.some.inj hsome)
    exact (Local.finish s t).effect _

/-! ### New sessions -/

/-- A session a refresh makes joins the lineage of a live session, on its device. -/
theorem Refreshed.born {db db' : Db} {h : History} {newId : SessionId}
    (hr : Refreshed cfg db h id now db' (.ok newId)) (hl : Lineages db h) :
    newId = db.nextSession ∧ ∃ y row, db.sessions.get y = some row ∧ row.revokedAt = none ∧
      h.root y = h.root id ∧ (y = id ∨ h.used y = false) ∧
      ∀ row', db'.sessions.get newId = some row' → row'.deviceId = row.deviceId := by
  cases hr with
  | rotated row hrow hrevoked =>
    refine ⟨rfl, id, row, hrow, hrevoked, rfl, Or.inl rfl, fun row' hrow' => ?_⟩
    have hsettled : db.settled id row now = if row.revokedAt = none ∧
        row.replacedBySessionId ≠ none then db.settleContest id now else db := by
      simp [Db.settled, hrevoked]
    rw [get_rotate (hl.bound id row hrow) cfg row now _ hsettled (nextSession_settled row),
      if_pos rfl] at hrow'
    exact Option.some.inj hrow' ▸ rfl
  | again token successorId successor hretry =>
    refine ⟨rfl, successorId, successor, hretry.successor_row, hretry.unrevoked,
      hretry.root_successor, Or.inr ?_, fun row' hrow' => ?_⟩
    · rw [hl.used successorId successor hretry.successor_row, hretry.unused]
      rfl
    rw [Retry.get_new (hretry.get_rotateAgain cfg now)] at hrow'
    have hdevice := hl.sameDevice successorId id successor token hretry.successor_row
      hretry.token_row hretry.root_successor
    exact Option.some.inj hrow' ▸ hdevice.symm

/-- A new session is that of a sign-in, or joins the lineage of a live session. -/
theorem Effect.born {l : Label} (he : Effect cfg s s' l) (hs : Sound s)
    (hge : s.db.nextSession ≤ k) (hlt : k < s'.db.nextSession) :
    (∃ device replaced now, l = .login device replaced now ∧
      s'.history.root k = s.db.nextSession ∧ ∀ row', s'.db.sessions.get k = some row' →
        row'.deviceId = some device) ∨
    ∃ y row, s.db.sessions.get y = some row ∧ row.revokedAt = none ∧
      s.history.root y = s'.history.root k ∧
      (s'.history.rotatedFrom k = some y ∨ s.history.used y = false) ∧
      ∀ row', s'.db.sessions.get k = some row' → row'.deviceId = row.deviceId := by
  have hnone : s'.db.nextSession ≠ s.db.nextSession := fun heq =>
    absurd hge (Nat.not_le.mpr (heq ▸ hlt))
  cases he with
  | «local» _ hdb _ => exact absurd (by rw [hdb]) hnone
  | used _ id row now _ _ _ hdb _ =>
    rw [hdb] at hnone
    exact absurd (nextSession_settled row) hnone
  | refreshed t c active now _ hdb hhistory =>
    have hr : Refreshed cfg s.db s.history c.id now _ _ := Auth.refreshed hs.lineages cfg active
    generalize s.db.refresh cfg c.id active now = outcome at hr hdb hhistory
    rcases hr.nextSession with ⟨_, _, hn⟩ | ⟨hok, hn⟩
    · exact absurd (hdb ▸ hn) hnone
    · rw [hdb, hn] at hlt
      obtain rfl : k = s.db.nextSession := Nat.le_antisymm (Nat.le_of_lt_succ hlt) hge
      rw [hok] at hr hhistory
      obtain ⟨_, y, row, hrow, hrevoked, hroot, hfrom, hdevice⟩ := hr.born hs.lineages
      refine Or.inr ⟨y, row, hrow, hrevoked, ?_, hfrom.imp_left fun heq => ?_, by rwa [hdb]⟩
      · rw [hhistory, hroot]
        exact ((rotate_root _ _ _ _).trans (if_pos rfl)).symm
      · rw [hhistory, heq]
        exact (rotate_rotatedFrom _ _ _ _).trans (if_pos rfl)
  | signedIn device replaced now _ hdb hhistory =>
    rw [hdb] at hlt
    obtain rfl : k = s.db.nextSession := Nat.le_antisymm (Nat.le_of_lt_succ hlt) hge
    refine Or.inl ⟨device, replaced, now, rfl, ?_, fun row' hrow' => ?_⟩
    · rw [hhistory]
      exact Function.update_self ..
    · rw [hdb, Db.login, Db.get_insertSession] at hrow'
      have hnew := (if_pos rfl).symm.trans hrow'
      exact Option.some.inj hnew ▸ rfl
  | loggedOut t id row now _ _ _ hdb _ => exact absurd (by rw [hdb]; rfl) hnone
  | removed t device now revoked _ hdb _ => exact absurd (by rw [hdb]; rfl) hnone
  | pruned ids cutoff hdb _ => exact absurd (by rw [hdb]; rfl) hnone

/-- A lineage without a live session does not get one. -/
theorem Effect.ended {l : Label} (he : Effect cfg s s' l) (hs : Sound s)
    (hk : Kept s s' l.owner) (hx : x < s.db.nextSession)
    (hend : ∀ y, s.db.live y = true → s.history.root y ≠ s.history.root x) (y : SessionId)
    (hlive : s'.db.live y = true) : s'.history.root y ≠ s'.history.root x := by
  rw [hk.frame.root x hx]
  by_cases hlt : y < s.db.nextSession
  · rw [hk.frame.root y hlt]
    exact hend y (hk.frame.live y hlt hlive)
  · obtain ⟨row', hrow', _⟩ := Db.live_iff.mp hlive
    rcases he.born hs (Nat.not_lt.mp hlt) (hk.lineages.bound y row' hrow') with
      ⟨_, _, _, _, hroot, _⟩ | ⟨z, row, hrow, hrevoked, hroot, _⟩
    · -- A sign-in begins a lineage of its own.
      rw [hroot]
      exact (Nat.ne_of_lt (Nat.lt_of_le_of_lt (hs.lineages.root_le x) hx)).symm
    · rw [← hroot]
      exact hend z (Db.live_iff.mpr ⟨row, hrow, hrevoked⟩)

/-- In a lineage without a live session every refresh is refused. -/
theorem Refreshed.refused_of_ended {db db' : Db} {h : History} {result : Except Detail SessionId}
    (hr : Refreshed cfg db h id now db' result) (hl : Lineages db h)
    (hend : ∀ y, db.live y = true → h.root y ≠ h.root id) :
    (∃ detail, result = .error detail) ∧ db'.nextSession = db.nextSession := by
  cases hresult : result with
  | ok newId =>
    rw [hresult] at hr
    obtain ⟨_, y, row, hrow, hrevoked, hroot, _, _⟩ := hr.born hl
    exact absurd hroot (hend y (Db.live_iff.mpr ⟨row, hrow, hrevoked⟩))
  | error detail =>
    refine ⟨⟨detail, rfl⟩, ?_⟩
    rcases hr.nextSession with ⟨_, _, hn⟩ | ⟨hok, _⟩
    · exact hn
    · rw [hresult] at hok
      cases hok

/-! ### Uses -/

/-- A refresh uses no session but the one it rotates. -/
theorem Refreshed.used {db db' : Db} {h : History} {result : Except Detail SessionId}
    {row' : AuthSession} (hr : Refreshed cfg db h id now db' result) (hl : Lineages db h)
    (hrow' : db'.sessions.get k = some row') (hfirst : row'.firstUsedAt.isSome = true) :
    h.used k = true ∨ (k = id ∧ result = .ok db.nextSession) := by
  cases hr with
  | refused _ _ hquiet _ _ =>
    obtain ⟨row, hrow, hq⟩ := hquiet.row k row' hrow'
    exact Or.inl (by rw [hl.used k row hrow, ← hq.firstUsedAt, hfirst])
  | rotated row hrow hrevoked =>
    have hsettled : db.settled id row now = if row.revokedAt = none ∧
        row.replacedBySessionId ≠ none then db.settleContest id now else db := by
      simp [Db.settled, hrevoked]
    rw [get_rotate (hl.bound id row hrow) cfg row now _ hsettled (nextSession_settled row)] at hrow'
    split at hrow'
    next =>
      obtain rfl := Option.some.inj hrow'
      cases hfirst
    next =>
      split at hrow'
      next heq => exact Or.inr ⟨heq, rfl⟩
      next hne =>
        rw [get_settled hl hrow hrevoked, if_neg hne] at hrow'
        left
        split at hrow'
        next =>
          obtain ⟨rowk, hrowk, rfl⟩ := Option.map_eq_some_iff.mp hrow'
          rw [hl.used k rowk hrowk]
          exact hfirst
        next => rw [hl.used k row' hrow', hfirst]
  | again token successorId successor hretry =>
    cases hretry.row_of_rotateAgain cfg now hrow' with
    | new _ => cases hfirst
    | token heq => exact Or.inr ⟨heq, rfl⟩
    | successor _ =>
      have hunused : successor.firstUsedAt.isSome = true := hfirst
      rw [hretry.unused] at hunused
      cases hunused
    | dropped row _ hrow _ _ => exact Or.inl ((hl.used k row hrow).trans hfirst)
    | same _ _ _ hrow => exact Or.inl ((hl.used k row' hrow).trans hfirst)

/-- A session that is used is live then, or what its token was rotated into is new. -/
theorem Effect.used_cases {l : Label} (he : Effect cfg s s' l) (hs : Sound s)
    (hused : s'.history.used k = true) :
    s.history.used k = true ∨ s'.db.live k = true ∨ ∃ c, s'.history.rotatedFrom c = some k := by
  cases he with
  | «local» _ _ hhistory => exact Or.inl (hhistory ▸ hused)
  | used _ id row now _ hrow hrevoked hdb hhistory =>
    rw [hhistory] at hused
    rcases Bool.or_eq_true_iff.mp hused with h | h
    · exact Or.inl h
    · obtain ⟨row', hrow', hfirst⟩ := (Option.any_eq_true _ _).mp h
      rw [hdb] at hrow' ⊢
      rcases row_of_use hs.lineages hrow hrevoked hrow' with
        ⟨rfl, rfl⟩ | ⟨_, rowk, hrowk, ⟨_, _, hunused, rfl⟩ | ⟨rfl, _⟩⟩
      · exact Or.inr (Or.inl (Db.live_iff.mpr ⟨_, hrow', hrevoked⟩))
      · have hsome : rowk.firstUsedAt.isSome = true := hfirst
        rw [hunused] at hsome
        cases hsome
      · exact Or.inl ((hs.lineages.used k _ hrowk).trans hfirst)
  | refreshed t c active now _ hdb hhistory =>
    have hr : Refreshed cfg s.db s.history c.id now _ _ := Auth.refreshed hs.lineages cfg active
    rw [hhistory, hdb] at hused
    rw [hhistory]
    generalize s.db.refresh cfg c.id active now = outcome at hr hused hhistory ⊢
    have hused' : ((s.history.refreshed c.id outcome.2).used k ||
      (outcome.1.sessions.get k).any (·.firstUsedAt.isSome)) = true := hused
    rcases Bool.or_eq_true_iff.mp hused' with h | h
    · rw [History.used_refreshed] at h
      exact Or.inl h
    · obtain ⟨row', hrow', hfirst⟩ := (Option.any_eq_true _ _).mp h
      rcases hr.used hs.lineages hrow' hfirst with h | ⟨rfl, hok⟩
      · exact Or.inl h
      · refine Or.inr (Or.inr ⟨s.db.nextSession, ?_⟩)
        rw [hok]
        exact (rotate_rotatedFrom _ _ _ _).trans (if_pos rfl)
  | signedIn device replaced now _ hdb hhistory =>
    rw [hhistory] at hused
    rcases Bool.or_eq_true_iff.mp hused with h | h
    · exact Or.inl h
    · obtain ⟨row', hrow', hfirst⟩ := (Option.any_eq_true _ _).mp h
      rw [hdb, Db.login, Db.get_insertSession] at hrow'
      split at hrow'
      next =>
        obtain rfl := Option.some.inj hrow'
        cases hfirst
      next =>
        rw [Db.get_forgetDevices] at hrow'
        obtain ⟨row, hrow, rfl⟩ := Option.map_eq_some_iff.mp hrow'
        exact Or.inl ((hs.lineages.used k row hrow).trans hfirst)
  | loggedOut t id row now _ _ _ _ hhistory =>
    rw [hhistory] at hused
    exact Or.inl hused
  | removed t device now revoked _ _ hhistory =>
    rw [hhistory] at hused
    exact Or.inl hused
  | pruned ids cutoff _ hhistory => exact Or.inl (hhistory ▸ hused)

/-! ### Devices -/

/-- A refresh leaves each session its device. -/
theorem Refreshed.device {db db' : Db} {h : History} {result : Except Detail SessionId}
    {row' : AuthSession} (hr : Refreshed cfg db h id now db' result) (hl : Lineages db h)
    (hlt : k < db.nextSession) (hrow' : db'.sessions.get k = some row') :
    ∃ row, db.sessions.get k = some row ∧ row'.deviceId = row.deviceId := by
  cases hr with
  | refused _ _ hquiet hother hself =>
    obtain ⟨row, hrow, _⟩ := hquiet.row k row' hrow'
    refine ⟨row, hrow, ?_⟩
    by_cases hk : k = id
    · subst hk
      exact hself row row' hrow hrow'
    · rw [hother k hk, hrow] at hrow'
      exact Option.some.inj hrow' ▸ rfl
  | rotated row hrow hrevoked =>
    have hsettled : db.settled id row now = if row.revokedAt = none ∧
        row.replacedBySessionId ≠ none then db.settleContest id now else db := by
      simp [Db.settled, hrevoked]
    rw [get_rotate (hl.bound id row hrow) cfg row now _ hsettled (nextSession_settled row),
      if_neg (Nat.ne_of_lt hlt), get_settled hl hrow hrevoked, if_pos rfl,
      get_settled hl hrow hrevoked] at hrow'
    split at hrow'
    next heq =>
      subst heq
      exact ⟨row, hrow, Option.some.inj hrow' ▸ rfl⟩
    next =>
      split at hrow'
      · obtain ⟨rowk, hrowk, rfl⟩ := Option.map_eq_some_iff.mp hrow'
        exact ⟨rowk, hrowk, rfl⟩
      · exact ⟨row', hrow', rfl⟩
  | again token successorId successor hretry =>
    cases hretry.row_of_rotateAgain cfg now hrow' with
    | new heq => exact absurd heq (Nat.ne_of_lt hlt)
    | token heq => exact ⟨token, heq ▸ hretry.token_row, rfl⟩
    | successor heq => exact ⟨successor, heq ▸ hretry.successor_row, rfl⟩
    | dropped row _ hrow _ _ => exact ⟨row, hrow, rfl⟩
    | same _ _ _ hrow => exact ⟨row', hrow, rfl⟩

/-- No session comes to be of a device it was not of. -/
theorem Effect.device {l : Label} (he : Effect cfg s s' l) (hs : Sound s) {device : DeviceId}
    {row' : AuthSession} (hlt : k < s.db.nextSession) (hrow' : s'.db.sessions.get k = some row')
    (hdevice : row'.deviceId = some device) :
    ∃ row, s.db.sessions.get k = some row ∧ row.deviceId = some device := by
  cases he with
  | «local» _ hdb _ => exact ⟨row', hdb ▸ hrow', hdevice⟩
  | used _ id row now _ hrow hrevoked hdb _ =>
    rw [hdb] at hrow'
    rcases row_of_use hs.lineages hrow hrevoked hrow' with
      ⟨rfl, rfl⟩ | ⟨_, rowk, hrowk, ⟨_, _, _, rfl⟩ | ⟨rfl, _⟩⟩
    · exact ⟨row, hrow, hdevice⟩
    · exact ⟨rowk, hrowk, hdevice⟩
    · exact ⟨_, hrowk, hdevice⟩
  | refreshed t c active now _ hdb _ =>
    have hr : Refreshed cfg s.db s.history c.id now _ _ := Auth.refreshed hs.lineages cfg active
    rw [hdb] at hrow'
    obtain ⟨row, hrow, heq⟩ := hr.device hs.lineages hlt hrow'
    exact ⟨row, hrow, heq.symm.trans hdevice⟩
  | signedIn d replaced now _ hdb _ =>
    have hne : k ≠ (s.db.forgetDevices replaced).nextSession := Nat.ne_of_lt hlt
    rw [hdb, Db.login, Db.get_insertSession, if_neg hne, Db.get_forgetDevices] at hrow'
    obtain ⟨row, hrow, rfl⟩ := Option.map_eq_some_iff.mp hrow'
    exact ⟨row, hrow, (Option.filter_eq_some_iff.mp hdevice).1⟩
  | loggedOut t id row now _ _ _ hdb _ =>
    rw [hdb, Db.logout, Db.get_updateSession] at hrow'
    obtain ⟨rowk, hrowk, rfl⟩ := Option.map_eq_some_iff.mp hrow'
    refine ⟨rowk, hrowk, ?_⟩
    split at hdevice <;> exact hdevice
  | removed t d now revoked _ hdb _ =>
    rw [hdb, Db.get_revokeAll] at hrow'
    obtain ⟨rowk, hrowk, rfl⟩ := Option.map_eq_some_iff.mp hrow'
    refine ⟨rowk, hrowk, ?_⟩
    split at hdevice <;> exact hdevice
  | pruned ids cutoff hdb _ =>
    rw [hdb, Db.get_pruneExpired] at hrow'
    obtain ⟨rowk, hrowk, rfl⟩ := Option.map_eq_some_iff.mp hrow'
    exact ⟨rowk, (Option.filter_eq_some_iff.mp hrowk).1, hdevice⟩

/-- A session of a device that is live after a step was one before, or follows one that was, or
is that of a sign-in on the device. -/
theorem Effect.live_of_device {l : Label} (he : Effect cfg s s' l) (hs : Sound s)
    (hk : Kept s s' l.owner) {device : DeviceId} {row' : AuthSession}
    (hrow' : s'.db.sessions.get y = some row') (hrevoked : row'.revokedAt = none)
    (hdevice : row'.deviceId = some device) :
    (∃ replaced now, l = .login device replaced now) ∨
    ∃ z row, s.db.sessions.get z = some row ∧ row.revokedAt = none ∧
      row.deviceId = some device ∧ (y = z ∨ s.db.nextSession ≤ y ∧
        s.history.root z = s'.history.root y) := by
  by_cases hlt : y < s.db.nextSession
  · obtain ⟨row, hrow, hrowdevice⟩ := he.device hs hlt hrow' hdevice
    obtain ⟨row₀, hrow₀, hnone⟩ :=
      Db.live_iff.mp (hk.frame.live y hlt (Db.live_iff.mpr ⟨row', hrow', hrevoked⟩))
    obtain rfl := Option.some.inj (hrow.symm.trans hrow₀)
    exact Or.inr ⟨y, row, hrow, hnone, hrowdevice, Or.inl rfl⟩
  · rcases he.born hs (Nat.not_lt.mp hlt) (hk.lineages.bound y row' hrow') with
      ⟨d, replaced, now, hl, _, hnew⟩ | ⟨z, row, hrow, hnone, hroot, _, hnew⟩
    · obtain rfl := Option.some.inj ((hnew row' hrow').symm.trans hdevice)
      exact Or.inl ⟨replaced, now, hl⟩
    · exact Or.inr ⟨z, row, hrow, hnone, (hnew row' hrow').symm.trans hdevice,
        Or.inr ⟨Nat.not_lt.mp hlt, hroot⟩⟩

/-! ### What a transaction is about -/

variable {txn txn' : Txn}

theorem subject_handOn {logout : Bool} (htxn : (s.handOn t id logout).1.txns t = some txn) :
    txn.subject = .request id logout := by
  unfold State.handOn at htxn
  split at htxn
  next hlogout =>
    rw [State.txns_setTxn] at htxn
    obtain rfl := Option.some.inj htxn
    rw [hlogout]
    rfl
  next =>
    rw [State.txns_finish] at htxn
    cases htxn

theorem subject_withContest {c c' : Contest} (hc : txn.contest? = some c) (hid : c'.id = c.id) :
    (txn.withContest c').subject = txn.subject := by
  cases txn with
  | refresh _ =>
    obtain rfl := Option.some.inj hc
    exact congrArg Subject.refresh hid
  | claimContest _ signsOut =>
    obtain rfl := Option.some.inj hc
    exact congrArg (Subject.request · signsOut) hid
  | lockSelf _ _ => cases hc
  | logout _ => cases hc
  | removal _ _ _ _ => cases hc

theorem subject_lockNext {c : Contest} (hc : txn.contest? = some c)
    (hstep : s.lockNext t txn c = some s') (htxn' : s'.txns t = some txn') :
    txn'.subject = txn.subject := by
  unfold State.lockNext at hstep
  split at hstep
  · cases hstep
  · dsimp only at hstep
    split at hstep
    · obtain rfl := Option.some.inj hstep
      rw [State.txns_setTxn] at htxn'
      exact Option.some.inj htxn' ▸ subject_withContest hc rfl
    · obtain ⟨_, hsome⟩ := Option.ite_none_right_eq_some.mp hstep
      obtain rfl := Option.some.inj hsome
      obtain rfl := Option.some.inj ((State.txns_setTxn ..).symm.trans htxn')
      exact subject_withContest hc rfl

theorem subject_lockSelf {logout : Bool} (hstep : s.lockSelf t id logout now = some (s', answer))
    (htxn' : s'.txns t = some txn') : txn'.subject = .request id logout := by
  unfold State.lockSelf at hstep
  split at hstep
  next =>
    obtain rfl := (congrArg Prod.fst (Option.some.inj hstep)).symm
    exact subject_handOn htxn'
  next =>
    split at hstep
    next => cases hstep
    next =>
      split at hstep
      next =>
        obtain ⟨rfl, _⟩ := Prod.mk.inj (Option.some.inj hstep)
        rw [State.txns_setTxn] at htxn'
        exact Option.some.inj htxn' ▸ rfl
      next =>
        split at hstep
        next =>
          obtain ⟨rfl, _⟩ := Prod.mk.inj (Option.some.inj hstep)
          rw [State.txns_finish] at htxn'
          cases htxn'
        next =>
          obtain rfl := (congrArg Prod.fst (Option.some.inj hstep)).symm
          exact subject_handOn htxn'

theorem subject_finishClaim {c : Contest} {logout : Bool}
    (hstep : s.finishClaim t c logout now = some (s', answer)) (htxn' : s'.txns t = some txn') :
    txn'.subject = .request c.id logout := by
  unfold State.finishClaim at hstep
  split at hstep
  next =>
    split at hstep
    next =>
      obtain ⟨rfl, _⟩ := Prod.mk.inj (Option.some.inj hstep)
      rw [State.txns_finish] at htxn'
      cases htxn'
    next =>
      split at hstep
      next =>
        obtain ⟨rfl, _⟩ := Prod.mk.inj (Option.some.inj hstep)
        rw [State.txns_finish] at htxn'
        cases htxn'
      next =>
        obtain rfl := (congrArg Prod.fst (Option.some.inj hstep)).symm
        exact subject_handOn htxn'
  next => cases hstep

theorem txns_logout (hstep : s.logout t id now = some (s', answer)) : s'.txns t = none := by
  unfold State.logout at hstep
  split at hstep
  next =>
    obtain ⟨rfl, _⟩ := Prod.mk.inj (Option.some.inj hstep)
    exact State.txns_finish s t
  next =>
    split at hstep
    next =>
      obtain rfl := (congrArg Prod.fst (Option.some.inj hstep)).symm
      exact State.txns_finish _ t
    next => cases hstep

theorem subject_startRequest {logout active : Bool} (hnone : s.txns t = none)
    (htxn' : (s.startRequest t id logout active).1.txns t = some txn') :
    txn'.subject = .request id logout := by
  have hself : s.txns t ≠ some txn' := by
    rw [hnone]
    exact nofun
  unfold State.startRequest at htxn'
  split at htxn'
  · exact absurd htxn' hself
  · split at htxn'
    · exact absurd htxn' hself
    · split at htxn'
      · split at htxn'
        next hlogout =>
          rw [State.txns_setTxn] at htxn'
          obtain rfl := Option.some.inj htxn'
          rw [hlogout]
          rfl
        next => exact absurd htxn' hself
      · split at htxn' <;>
        · rw [State.txns_setTxn] at htxn'
          exact Option.some.inj htxn' ▸ rfl

theorem subject_startRefresh (hnone : s.txns t = none)
    (htxn' : (s.startRefresh t id).1.txns t = some txn') : txn'.subject = .refresh id := by
  unfold State.startRefresh at htxn'
  split at htxn'
  · rw [hnone] at htxn'
    cases htxn'
  · rw [State.txns_setTxn] at htxn'
    exact Option.some.inj htxn' ▸ rfl

theorem subject_removal {device : DeviceId} {at_ : Time} {revoked : List SessionId} {pass : Pass}
    (hstep : s.removal t device at_ revoked pass = some s') :
    ∃ revoked' pass', s'.txns t = some (.removal device at_ revoked' pass') := by
  unfold State.removal at hstep
  split at hstep
  next =>
    obtain rfl := Option.some.inj hstep
    exact ⟨_, _, State.txns_setTxn ..⟩
  next =>
    split at hstep
    next =>
      obtain rfl := Option.some.inj hstep
      exact ⟨_, _, State.txns_setTxn ..⟩
    next =>
      split at hstep
      next => cases hstep
      next =>
        split at hstep <;>
        · obtain rfl := Option.some.inj hstep
          exact ⟨_, _, State.txns_setTxn ..⟩
  next =>
    obtain rfl := Option.some.inj hstep
    exact ⟨_, _, State.txns_setTxn ..⟩
  next =>
    obtain rfl := Option.some.inj hstep
    exact ⟨_, _, State.txns_setTxn ..⟩
  next => cases hstep

/-- How a transaction under way came to be about what it is about. -/
inductive Begun (s : State) (t : TxnId) : Label → Subject → Prop
  | before (l : Label) (txn : Txn) : s.txns t = some txn → Begun s t l txn.subject
  | refresh (id : SessionId) : Begun s t (.refresh t id) (.refresh id)
  | request (id : SessionId) (logout active : Bool) :
      Begun s t (.request t id logout active) (.request id logout)
  | removal (device : DeviceId) (now : Time) :
      s.accounts device.userId = none → Begun s t (.startRemoval t device now) (.removal device)

/-- **What a transaction is about** it has been from its start. -/
theorem begun_of_act {l : Label} (hact : act cfg s l = some (s', answer))
    (howner : l.owner = some t) (htxn' : s'.txns t = some txn') : Begun s t l txn'.subject := by
  cases l with
  | login device replaced now => cases howner
  | prune ids cutoff => cases howner
  | refresh t' id =>
    obtain rfl := Option.some.inj howner
    obtain ⟨hnone, hsome⟩ := Option.ite_none_right_eq_some.mp hact
    obtain rfl := (congrArg Prod.fst (Option.some.inj hsome)).symm
    exact subject_startRefresh hnone htxn' ▸ .refresh id
  | request t' id logout active =>
    obtain rfl := Option.some.inj howner
    obtain ⟨hnone, hsome⟩ := Option.ite_none_right_eq_some.mp hact
    obtain rfl := (congrArg Prod.fst (Option.some.inj hsome)).symm
    exact subject_startRequest hnone htxn' ▸ .request id logout active
  | lockMissing t' =>
    obtain rfl := Option.some.inj howner
    obtain ⟨txn, htxn, hbind⟩ := Option.bind_eq_some_iff.mp hact
    obtain ⟨c, hc, hmap⟩ := Option.bind_eq_some_iff.mp hbind
    obtain ⟨s₁, hstep, heq⟩ := Option.map_eq_some_iff.mp hmap
    obtain ⟨rfl, _⟩ := Prod.mk.inj heq
    obtain ⟨_, hsome⟩ := Option.ite_none_right_eq_some.mp hstep
    obtain rfl := Option.some.inj hsome
    rw [State.txns_setTxn] at htxn'
    obtain rfl := Option.some.inj htxn'
    have hsubject : (txn.withContest (c.lockMissing s.db)).subject = txn.subject :=
      subject_withContest hc rfl
    exact hsubject ▸ .before _ txn htxn
  | lockNext t' =>
    obtain rfl := Option.some.inj howner
    obtain ⟨txn, htxn, hbind⟩ := Option.bind_eq_some_iff.mp hact
    obtain ⟨c, hc, hmap⟩ := Option.bind_eq_some_iff.mp hbind
    obtain ⟨s₁, hstep, heq⟩ := Option.map_eq_some_iff.mp hmap
    obtain ⟨rfl, _⟩ := Prod.mk.inj heq
    exact subject_lockNext hc hstep htxn' ▸ .before _ txn htxn
  | lockSelf t' now =>
    obtain rfl := Option.some.inj howner
    simp only [act] at hact
    split at hact
    next id logout htxn => exact subject_lockSelf hact htxn' ▸ .before _ (.lockSelf id logout) htxn
    next => cases hact
  | finishRefresh t' active now =>
    obtain rfl := Option.some.inj howner
    simp only [act] at hact
    split at hact
    next =>
      obtain ⟨_, rfl, _⟩ := finishRefresh_eq hact
      rw [State.txns_finish] at htxn'
      cases htxn'
    next => cases hact
  | finishClaim t' now =>
    obtain rfl := Option.some.inj howner
    simp only [act] at hact
    split at hact
    next c logout htxn =>
      exact subject_finishClaim hact htxn' ▸ .before _ (.claimContest c logout) htxn
    next => cases hact
  | logout t' now =>
    obtain rfl := Option.some.inj howner
    simp only [act] at hact
    split at hact
    next =>
      rw [txns_logout hact] at htxn'
      cases htxn'
    next => cases hact
  | startRemoval t' device now =>
    obtain rfl := Option.some.inj howner
    obtain ⟨_, hsome⟩ := Option.ite_none_right_eq_some.mp hact
    obtain ⟨s₁, hstep, heq⟩ := Option.map_eq_some_iff.mp hsome
    obtain ⟨rfl, _⟩ := Prod.mk.inj heq
    obtain ⟨hfree, hsome⟩ := Option.ite_none_right_eq_some.mp hstep
    obtain rfl := Option.some.inj hsome
    change Function.update s.txns t' _ t' = _ at htxn'
    rw [Function.update_self] at htxn'
    exact Option.some.inj htxn' ▸ .removal device now (Option.isNone_iff_eq_none.mp hfree)
  | removal t' =>
    obtain rfl := Option.some.inj howner
    simp only [act] at hact
    split at hact
    next device now revoked pass htxn =>
      obtain ⟨s₁, hstep, heq⟩ := Option.map_eq_some_iff.mp hact
      obtain ⟨rfl, _⟩ := Prod.mk.inj heq
      obtain ⟨_, _, htxn₁⟩ := subject_removal hstep
      obtain rfl := Option.some.inj (htxn₁.symm.trans htxn')
      exact .before _ (.removal device now revoked pass) htxn
    next => cases hact
  | commitRemoval t' =>
    obtain rfl := Option.some.inj howner
    simp only [act] at hact
    split at hact
    next =>
      obtain ⟨rfl, _⟩ := Prod.mk.inj (Option.some.inj hact)
      rw [State.commitRemoval, State.txns_finish] at htxn'
      cases htxn'
    next => cases hact
  | abort t' =>
    obtain rfl := Option.some.inj howner
    obtain ⟨_, hsome⟩ := Option.ite_none_left_eq_some.mp hact
    obtain ⟨rfl, _⟩ := Prod.mk.inj (Option.some.inj hsome)
    rw [State.txns_finish] at htxn'
    cases htxn'

end TigerDuck.Auth
