import TigerDuck.Auth.Frames

/-!
# What a transaction holds

What each transaction under way has locked and may rely on (`Txn.Held`): a contest's rows, the
use of the session a logout is about, and the sessions a removal revokes, among them every live
one of a lineage it has finished a pass over. With the shape of the lineages this holds of every
state (`Sound`), so a rotation that has its contest complete holds every live session of the
lineage it adds to.
-/

namespace TigerDuck.Auth

open Relational Transition

variable {s s' : State} {t : TxnId} {id x y k : SessionId} {now : Time} {cfg : Settings}

/-- The rows a pass has locked. -/
def Pass.acquired : Pass → List SessionId
  | .locking _ acquired _ _ => acquired
  | _ => []

/-- The rows a pass still has to lock. -/
def Pass.todo : Pass → List SessionId
  | .locking _ _ todo _ => todo
  | _ => []

/-- The rows of a contest that are there and no longer to be locked are locked. -/
structure ContestHeld (s : State) (t : TxnId) (c : Contest) : Prop where
  id_lt : c.id < s.db.nextSession
  locked_lt : ∀ y ∈ c.locked, y < s.db.nextSession
  held : ∀ y ∈ c.locked, y ∉ c.todo → (s.db.sessions.get y).isSome = true → s.rows y = some t

/-- The sessions a removal revokes are live sessions of its device that it has locked. Between
its passes lineages may have grown, in a pass they have not. -/
structure RemovalHeld (s : State) (t : TxnId) (device : DeviceId) (revoked : List SessionId)
    (pass : Pass) : Prop where
  account : s.accounts device.userId = some t
  held : ∀ y, y ∈ revoked ∨ y ∈ pass.acquired → s.rows y = some t ∧
    ∃ row, s.db.sessions.get y = some row ∧ row.revokedAt = none ∧ row.deviceId = some device
  covered : pass ≠ .between → ∀ x ∈ revoked, ∀ y, s.db.live y = true →
    s.history.root y = s.history.root x → y ∈ revoked ∨ y ∈ pass.acquired ∨ y ∈ pass.todo

/-- What a transaction under way holds. -/
def Txn.Held (s : State) (t : TxnId) : Txn → Prop
  | .refresh c => ContestHeld s t c
  | .lockSelf id _ => id < s.db.nextSession
  | .claimContest c _ => ContestHeld s t c
  | .logout id => id < s.db.nextSession ∧
      ((s.db.sessions.get id).isSome = true → s.history.used id = true)
  | .removal device _ revoked pass => RemovalHeld s t device revoked pass

/-- What holds of every state. -/
structure Sound (s : State) : Prop where
  lineages : Lineages s.db s.history
  held : ∀ t txn, s.txns t = some txn → txn.Held s t

/-! ### What the steps of others leave of it -/

theorem ContestHeld.frame {c : Contest} {owner : Option TxnId} (hc : ContestHeld s t c)
    (hf : Frame s s' owner) (hne : some t ≠ owner) : ContestHeld s' t c where
  id_lt := Nat.lt_of_lt_of_le hc.id_lt hf.nextSession
  locked_lt := fun y hy => Nat.lt_of_lt_of_le (hc.locked_lt y hy) hf.nextSession
  held := fun y hy htodo hrow =>
    (hf.rows y t hne (hc.held y hy htodo (hf.gone y (hc.locked_lt y hy) hrow))).1

theorem RemovalHeld.frame {device : DeviceId} {revoked : List SessionId} {pass : Pass}
    {owner : Option TxnId} (hr : RemovalHeld s t device revoked pass) (hl : Lineages s.db s.history)
    (hl' : Lineages s'.db s'.history) (hf : Frame s s' owner) (hne : some t ≠ owner) :
    RemovalHeld s' t device revoked pass where
  account := hf.accounts _ t hne hr.account
  held := fun y hy => by
    obtain ⟨hrows, row, hrow, hrest⟩ := hr.held y hy
    obtain ⟨hrows', hget⟩ := hf.rows y t hne hrows
    exact ⟨hrows', row, (hget (hl.bound y row hrow)).trans hrow, hrest⟩
  covered := fun hpass x hx y hlive hroot => by
    obtain ⟨hrows, row, hrow, hrevoked, _⟩ := hr.held x (Or.inl hx)
    have hx_lt := hl.bound x row hrow
    rw [hf.root x hx_lt] at hroot
    by_cases hlt : y < s.db.nextSession
    · exact hr.covered hpass x hx y (hf.live y hlt hlive) ((hf.root y hlt).symm.trans hroot)
    · -- The lineage of a held session does not grow.
      obtain ⟨row', hrow', _⟩ := Db.live_iff.mp hlive
      exact absurd hroot (hf.born y (Nat.not_lt.mp hlt) (hl'.bound y row' hrow') x t hne hrows
        (Db.live_iff.mpr ⟨row, hrow, hrevoked⟩))

theorem Txn.Held.frame {txn : Txn} {owner : Option TxnId} (hheld : txn.Held s t)
    (hl : Lineages s.db s.history) (hl' : Lineages s'.db s'.history) (hf : Frame s s' owner)
    (hne : some t ≠ owner) : txn.Held s' t := by
  cases txn with
  | refresh c => exact ContestHeld.frame hheld hf hne
  | lockSelf id _ => exact Nat.lt_of_lt_of_le hheld hf.nextSession
  | claimContest c _ => exact ContestHeld.frame hheld hf hne
  | logout id =>
    exact ⟨Nat.lt_of_lt_of_le hheld.1 hf.nextSession, fun hrow =>
      hf.used id (hheld.2 (hf.gone id hheld.1 hrow))⟩
  | removal device now revoked pass => exact RemovalHeld.frame hheld hl hl' hf hne

/-- What a step keeps, told apart by whose it is. -/
structure Kept (s s' : State) (owner : Option TxnId) : Prop where
  lineages : Lineages s'.db s'.history
  frame : Frame s s' owner
  own : ∀ t txn, owner = some t → s'.txns t = some txn → txn.Held s' t

theorem Kept.sound {owner : Option TxnId} (hk : Kept s s' owner) (hs : Sound s) : Sound s' where
  lineages := hk.lineages
  held := fun t txn htxn => by
    by_cases howner : owner = some t
    · exact hk.own t txn howner htxn
    · have hne : some t ≠ owner := Ne.symm howner
      rw [hk.frame.txns t hne] at htxn
      exact (hs.held t txn htxn).frame hs.lineages hk.lineages hk.frame hne

/-- A step that is local, and ends up in a transaction that holds what it needs. -/
theorem Local.kept {txn : Txn} (hl : Local s s' t) (hs : Sound s) (htxn : s'.txns t = some txn)
    (hheld : txn.Held s' t) : Kept s s' (some t) where
  lineages := by
    rw [hl.db, hl.history]
    exact hs.lineages
  frame := hl.frame
  own := fun t' txn' heq htxn' => by
    obtain rfl := Option.some.inj heq
    rw [htxn] at htxn'
    exact Option.some.inj htxn' ▸ hheld

/-- A local step that ends its transaction. -/
theorem Local.kept_over (hl : Local s s' t) (hs : Sound s) (htxn : s'.txns t = none) :
    Kept s s' (some t) where
  lineages := by
    rw [hl.db, hl.history]
    exact hs.lineages
  frame := hl.frame
  own := fun t' txn' heq htxn' => by
    obtain rfl := Option.some.inj heq
    rw [htxn] at htxn'
    cases htxn'

@[simp]
theorem State.txns_setTxn (s : State) (t : TxnId) (txn : Txn) :
    (s.setTxn t txn).txns t = some txn := Function.update_self ..

@[simp]
theorem State.txns_finish (s : State) (t : TxnId) : (s.finish t).txns t = none :=
  Function.update_self ..

/-! ### The steps of a contest -/

/-- The rows a contest is linked to once it is complete are locked. -/
theorem ContestHeld.linked {c : Contest} (hc : ContestHeld s t c)
    (hcomplete : c.complete s.db = true) (hy : y ∈ s.db.linkedIds c.id) : s.rows y = some t := by
  simp only [Contest.complete, Contest.missing, Bool.and_eq_true, List.isEmpty_iff] at hcomplete
  obtain ⟨htodo, hmissing⟩ := hcomplete
  have hlocked : y ∈ c.locked := by
    by_contra hnot
    have hmem : y ∈ (Db.sorted (s.db.linkedIds c.id)).filter fun id => !c.locked.contains id := by
      simp [Db.sorted, hy, hnot]
    rw [hmissing] at hmem
    cases hmem
  exact hc.held y hlocked (htodo ▸ List.not_mem_nil) (row_of_mem_linkedIds hy)

theorem Txn.held_withContest {txn : Txn} {c c' : Contest} (hc : txn.contest? = some c) :
    (txn.withContest c').Held s t ↔ ContestHeld s t c' := by
  cases txn <;> first | exact Iff.rfl | cases hc

theorem Txn.contestHeld {txn : Txn} {c : Contest} (hc : txn.contest? = some c)
    (hheld : txn.Held s t) : ContestHeld s t c := by
  cases txn <;> first | exact Option.some.inj hc ▸ hheld | cases hc

theorem kept_lockMissing (hs : Sound s) {txn : Txn} {c : Contest} (htxn : s.txns t = some txn)
    (hc : txn.contest? = some c) (hstep : s.lockMissing t txn c = some s') :
    Kept s s' (some t) := by
  have hheld := Txn.contestHeld hc (hs.held t txn htxn)
  unfold State.lockMissing at hstep
  split at hstep
  next hguard =>
    obtain rfl := Option.some.inj hstep
    refine (Local.setTxn s t _).kept hs (State.txns_setTxn ..) ((Txn.held_withContest hc).mpr ?_)
    refine ⟨hheld.id_lt, fun y hy => ?_, fun y hy htodo hrow => ?_⟩
    · rcases List.mem_append.mp hy with hy | hy
      · exact hheld.locked_lt y hy
      · have hlinked : y ∈ s.db.linkedIds c.id := by
          have := List.mem_of_mem_filter hy
          simpa [Db.sorted] using this
        obtain ⟨row, hrow⟩ := Option.isSome_iff_exists.mp (row_of_mem_linkedIds hlinked)
        exact hs.lineages.bound y row hrow
    · have hlocked := (List.mem_append.mp hy).resolve_right htodo
      exact hheld.held y hlocked (hguard.1 ▸ List.not_mem_nil) hrow
  next => cases hstep

theorem kept_lockNext (hs : Sound s) {txn : Txn} {c : Contest} (htxn : s.txns t = some txn)
    (hc : txn.contest? = some c) (hstep : s.lockNext t txn c = some s') :
    Kept s s' (some t) := by
  have hheld := Txn.contestHeld hc (hs.held t txn htxn)
  unfold State.lockNext at hstep
  split at hstep
  · cases hstep
  next id rest htodo =>
    dsimp only at hstep
    split at hstep
    next hgone =>
      obtain rfl := Option.some.inj hstep
      refine (Local.setTxn s t _).kept hs (State.txns_setTxn ..) ((Txn.held_withContest hc).mpr ?_)
      refine ⟨hheld.id_lt, hheld.locked_lt, fun y hy hrest hrow => ?_⟩
      -- A deleted row is not there to be held.
      have hne : y ≠ id := fun heq => by
        rw [Option.isNone_iff_eq_none, ← heq] at hgone
        change (s.db.sessions.get y).isSome = true at hrow
        rw [hgone] at hrow
        cases hrow
      exact hheld.held y hy (by rw [htodo]; exact List.not_mem_cons_of_ne_of_not_mem hne hrest) hrow
    next =>
      split at hstep
      next hfree =>
        obtain rfl := Option.some.inj hstep
        have hlocal := (Local.setTxn s t (txn.withContest { c with todo := rest })).trans
          (Local.lockRow (k := id) hfree)
        refine hlocal.kept hs (State.txns_setTxn ..) ((Txn.held_withContest hc).mpr ?_)
        refine ⟨hheld.id_lt, hheld.locked_lt, fun y hy hrest hrow => ?_⟩
        by_cases heq : y = id
        · exact heq ▸ RowLocks.lock_self
        · exact RowLocks.lock_of_held (hheld.held y hy
            (by rw [htodo]; exact List.not_mem_cons_of_ne_of_not_mem heq hrest) hrow)
            (of_decide_eq_true hfree)
      next => cases hstep

/-! ### The steps that write -/

/-- The rotations a refresh records are those its outcome says. -/
theorem finishRefresh_eq {c : Contest} {active : Bool} {answer : Option Answer}
    (hstep : s.finishRefresh cfg t c active now = some (s', answer)) :
    c.complete s.db = true ∧
      s' = (({ s with
        history := s.history.refreshed c.id (s.db.refresh cfg c.id active now).2 } : State).write
          (s.db.refresh cfg c.id active now).1).finish t ∧
      answer = some (.refreshed (s.db.refresh cfg c.id active now).2) := by
  unfold State.finishRefresh at hstep
  split at hstep
  next hcomplete =>
    generalize s.db.refresh cfg c.id active now = outcome at hstep ⊢
    obtain ⟨db, result⟩ := outcome
    cases result <;> cases hstep <;> exact ⟨hcomplete, rfl, rfl⟩
  next => cases hstep

theorem kept_finishRefresh (hs : Sound s) {c : Contest} {active : Bool} {answer : Option Answer}
    (htxn : s.txns t = some (.refresh c))
    (hstep : s.finishRefresh cfg t c active now = some (s', answer)) : Kept s s' (some t) := by
  obtain ⟨hcomplete, rfl, _⟩ := finishRefresh_eq hstep
  have hheld : ContestHeld s t c := hs.held t _ htxn
  have hl := hs.lineages
  have hr : Refreshed cfg s.db s.history c.id now _ _ := refreshed hl cfg active
  generalize s.db.refresh cfg c.id active now = outcome at hr ⊢
  have hl' := hr.lineages hl
  have hlinked : ∀ k t', some t' ≠ some t → s.rows k = some t' → k ∉ s.db.linkedIds c.id := by
    intro k t' hne hk hmem
    exact hne (hk.symm.trans (hheld.linked hcomplete hmem))
  have hframe : Frame s (State.write { s with
      history := s.history.refreshed c.id outcome.2 } outcome.1) (some t) := by
    refine {
      txns := fun _ _ => rfl
      rows := fun k t' hne hk =>
        ⟨hk, fun hlt => hr.get_of_not_linked hl (hlinked k t' hne hk) hlt⟩
      accounts := fun _ _ _ hu => hu
      nextSession := ?_
      gone := fun k hlt hk => ?_
      live := fun k hlt hk => hr.live_of_live hl hk hlt
      root := fun k hlt => hr.root_eq hlt
      rotatedFrom := fun k hlt => hr.rotatedFrom_eq hlt
      used := fun k hk => by
        show (_ || _) = true
        rw [History.used_refreshed, hk, Bool.true_or]
      born := fun k hge hlt x t' hne hx hlive => ?_ }
    case refine_1 =>
      show s.db.nextSession ≤ outcome.1.nextSession
      rcases hr.nextSession with ⟨_, _, hn⟩ | ⟨_, hn⟩ <;> rw [hn]
      exact Nat.le_succ _
    case refine_2 => exact hr.isSome_of_isSome hl hk hlt
    case refine_3 =>
      change k < outcome.1.nextSession at hlt
      rcases hr.nextSession with ⟨_, _, hn⟩ | ⟨hok, hn⟩
      · exact absurd hge (Nat.not_le.mpr (hn ▸ hlt))
      · rw [hn] at hlt
        obtain rfl : k = s.db.nextSession := Nat.le_antisymm (Nat.le_of_lt_succ hlt) hge
        intro hroot
        rw [hok] at hr
        have hself : (s.history.refreshed c.id outcome.2).root s.db.nextSession =
            s.history.root c.id := by
          rw [hok]
          exact (rotate_root _ _ _ _).trans (if_pos rfl)
        exact hlinked x t' hne hx (hr.mem_linkedIds hl hlive (hroot.symm.trans hself))
  refine ⟨hl', hframe.trans_local (Local.finish _ t), fun t' txn' heq htxn' => ?_⟩
  obtain rfl := Option.some.inj heq
  rw [State.txns_finish] at htxn'
  cases htxn'

/-- The write of a first use, with the contest it settles. -/
theorem frame_use (hs : Sound s) {row : AuthSession} (hrow : s.db.sessions.get id = some row)
    (hrevoked : row.revokedAt = none)
    (hlinked : ∀ y ∈ siblings s.db s.history.root (s.history.root id), s.rows y = some t ∨
      s.rows y = none) :
    Frame s (s.write ((s.db.settled id row now).updateSession id (·.use now))) (some t) where
  txns := fun _ _ => rfl
  rows := fun k t' hne hk => by
    refine ⟨hk, fun hlt => ?_⟩
    have hnot : k ∉ siblings s.db s.history.root (s.history.root id) := fun hmem => by
      rcases hlinked k hmem with hown | hnone
      · exact hne (hk.symm.trans hown)
      · rw [hk] at hnone
        cases hnone
    have hself : k ≠ id := by
      rintro rfl
      exact hnot (hs.lineages.mem_siblings_self (Db.live_iff.mpr ⟨row, hrow, hrevoked⟩))
    show ((s.db.settled id row now).updateSession id _).sessions.get k = _
    rw [Db.get_updateSession, get_settled hs.lineages hrow hrevoked, if_neg hself, if_neg hnot]
    cases s.db.sessions.get k <;> simp [hself]
  accounts := fun _ _ _ hu => hu
  nextSession := Nat.le_of_eq (nextSession_settled row).symm
  gone := fun k _ hk => by
    obtain ⟨row', hrow'⟩ := Option.isSome_iff_exists.mp hk
    rcases row_of_use hs.lineages hrow hrevoked hrow' with ⟨rfl, _⟩ | ⟨_, rowk, hrowk, _⟩
    · exact Option.isSome_iff_exists.mpr ⟨row, hrow⟩
    · exact Option.isSome_iff_exists.mpr ⟨rowk, hrowk⟩
  live := fun k _ hk => by
    obtain ⟨row', hrow', hrevoked'⟩ := Db.live_iff.mp hk
    rcases row_of_use hs.lineages hrow hrevoked hrow' with
      ⟨rfl, _⟩ | ⟨_, rowk, hrowk, ⟨hnone, _⟩ | ⟨rfl, _⟩⟩
    · exact Db.live_iff.mpr ⟨row, hrow, hrevoked⟩
    · exact Db.live_iff.mpr ⟨rowk, hrowk, hnone⟩
    · exact Db.live_iff.mpr ⟨_, hrowk, hrevoked'⟩
  root := fun _ _ => rfl
  rotatedFrom := fun _ _ => rfl
  used := fun k hk => by
    show (_ || _) = true
    rw [hk, Bool.true_or]
  born := fun k hge hlt => absurd hge (Nat.not_le.mpr ((nextSession_settled row) ▸ hlt))

/-- A first use that is accepted is that of a live session. -/
theorem recordFirstUse_eq {db db' : Db} {row : AuthSession}
    (h : db.recordFirstUse id row now = (db', .ok ())) :
    row.revokedAt = none ∧ db' = (db.settled id row now).updateSession id (·.use now) := by
  unfold Db.recordFirstUse at h
  split at h
  · cases h
  next hrevoked =>
    obtain ⟨hdb, _⟩ := Prod.mk.inj h
    exact ⟨not_not.mp hrevoked, hdb.symm⟩

/-- The use a logout goes on from. -/
theorem held_handOn (hbound : id < s.db.nextSession)
    (hused : (s.db.sessions.get id).isSome = true → s.history.used id = true) (logout : Bool) :
    ∀ txn, (s.handOn t id logout).1.txns t = some txn → txn.Held (s.handOn t id logout).1 t := by
  intro txn htxn
  unfold State.handOn at htxn ⊢
  split at htxn
  next hlogout =>
    rw [if_pos hlogout]
    rw [State.txns_setTxn] at htxn
    exact Option.some.inj htxn ▸ ⟨hbound, hused⟩
  next =>
    rw [State.txns_finish] at htxn
    cases htxn

/-- A first use keeps everything, and is what the logout behind it relies on. -/
theorem kept_use (hs : Sound s) {row : AuthSession} (hrow : s.db.sessions.get id = some row)
    (hrevoked : row.revokedAt = none) (logout : Bool)
    (hlinked : ∀ y ∈ siblings s.db s.history.root (s.history.root id), s.rows y = some t ∨
      s.rows y = none) :
    Kept s ((s.write ((s.db.settled id row now).updateSession id (·.use now))).handOn t id
      logout).1 (some t) := by
  have hlocal := Local.handOn
    (s.write ((s.db.settled id row now).updateSession id (·.use now))) t id logout
  refine ⟨?_, (frame_use hs hrow hrevoked hlinked).trans_local hlocal, ?_⟩
  · rw [hlocal.db, hlocal.history]
    exact hs.lineages.use hrow hrevoked now
  · intro t' txn heq htxn
    obtain rfl := Option.some.inj heq
    refine held_handOn ?_ (fun _ => ?_) logout txn htxn
    · exact (nextSession_settled row).symm ▸ hs.lineages.bound id row hrow
    · show (_ || ((((s.db.settled id row now).updateSession id _).sessions.get id).any _)) = true
      rw [Db.get_updateSession, get_settled hs.lineages hrow hrevoked, if_pos rfl]
      cases hfirst : row.firstUsedAt <;>
        simp [AuthSession.use, AuthSession.link, hfirst]

theorem kept_finishClaim (hs : Sound s) {c : Contest} {logout : Bool} {answer : Option Answer}
    (htxn : s.txns t = some (.claimContest c logout))
    (hstep : s.finishClaim t c logout now = some (s', answer)) : Kept s s' (some t) := by
  have hheld : ContestHeld s t c := hs.held t _ htxn
  unfold State.finishClaim at hstep
  split at hstep
  next hcomplete =>
    split at hstep
    next =>
      obtain ⟨rfl, _⟩ := Prod.mk.inj (Option.some.inj hstep)
      exact (Local.finish s t).kept_over hs (State.txns_finish s t)
    next row hrow =>
      split at hstep
      next =>
        obtain ⟨rfl, _⟩ := Prod.mk.inj (Option.some.inj hstep)
        exact (Local.finish s t).kept_over hs (State.txns_finish s t)
      next db' hok =>
        obtain ⟨hrevoked, rfl⟩ := recordFirstUse_eq hok
        obtain rfl := (congrArg Prod.fst (Option.some.inj hstep)).symm
        refine kept_use hs hrow hrevoked logout fun y hy => Or.inl (hheld.linked hcomplete ?_)
        exact (hs.lineages.mem_linkedIds_of_live (Db.live_iff.mpr ⟨row, hrow, hrevoked⟩)).mpr hy
  next => cases hstep

theorem kept_lockSelf (hs : Sound s) {logout : Bool} {answer : Option Answer}
    (htxn : s.txns t = some (.lockSelf id logout))
    (hstep : s.lockSelf t id logout now = some (s', answer)) : Kept s s' (some t) := by
  have hbound : id < s.db.nextSession := hs.held t _ htxn
  unfold State.lockSelf at hstep
  split at hstep
  next hgone =>
    obtain rfl := (congrArg Prod.fst (Option.some.inj hstep)).symm
    have hlocal := Local.handOn s t id logout
    refine ⟨?_, hlocal.frame, fun t' txn heq htxn' => ?_⟩
    · rw [hlocal.db, hlocal.history]
      exact hs.lineages
    · obtain rfl := Option.some.inj heq
      refine held_handOn hbound (fun hrow => ?_) logout txn htxn'
      rw [hgone] at hrow
      cases hrow
  next row hrow =>
    split at hstep
    next => cases hstep
    next hfree =>
      have hfree' : s.available t id = true := Bool.not_eq_false _ ▸ hfree
      split at hstep
      next =>
        obtain ⟨rfl, _⟩ := Prod.mk.inj (Option.some.inj hstep)
        have hlocal := (Local.lockRow hfree').trans
          (Local.setTxn (s.lockRow t id) t (.claimContest ⟨id, [], []⟩ logout))
        exact hlocal.kept hs (State.txns_setTxn ..) ⟨hbound, nofun, nofun⟩
      next hguard =>
        split at hstep
        next =>
          obtain ⟨rfl, _⟩ := Prod.mk.inj (Option.some.inj hstep)
          exact (Local.finish s t).kept_over hs (State.txns_finish s t)
        next db' hok =>
          obtain ⟨hrevoked, rfl⟩ := recordFirstUse_eq hok
          obtain rfl := (congrArg Prod.fst (Option.some.inj hstep)).symm
          have hnext : row.replacedBySessionId = none := by
            by_contra hne
            exact hguard ⟨hrevoked, hne⟩
          -- Without a rival it is the only live session of its lineage.
          have honly := hs.lineages.eq_of_settled (Db.live_iff.mpr ⟨row, hrow, hrevoked⟩)
            (by simp [Db.next, hrow, hnext])
          refine kept_use hs hrow hrevoked logout fun y hy => ?_
          rw [honly, List.mem_singleton] at hy
          exact hy ▸ (of_decide_eq_true hfree').symm

theorem kept_logout (hs : Sound s) {answer : Option Answer} (htxn : s.txns t = some (.logout id))
    (hstep : s.logout t id now = some (s', answer)) : Kept s s' (some t) := by
  obtain ⟨_, hused⟩ : id < s.db.nextSession ∧
    ((s.db.sessions.get id).isSome = true → s.history.used id = true) := hs.held t _ htxn
  unfold State.logout at hstep
  split at hstep
  next =>
    obtain ⟨rfl, _⟩ := Prod.mk.inj (Option.some.inj hstep)
    exact (Local.finish s t).kept_over hs (State.txns_finish s t)
  next row hrow =>
    split at hstep
    next hfree =>
      obtain rfl := (congrArg Prod.fst (Option.some.inj hstep)).symm
      have hquiet := hs.lineages.quiet_logout (hused (by rw [hrow]; rfl)) now
      have hl' := hs.lineages.quiet hquiet
      have hobserve := hl'.observe_eq
      refine ⟨?_, Frame.trans_local ?_ (Local.finish _ t), fun t' txn heq htxn' => ?_⟩
      · show Lineages (s.db.logout id now) _
        dsimp only [State.finish, State.write]
        rw [hobserve]
        exact ⟨hl'.bound, hl'.fresh, hl'.root_le, hl'.child, hl'.next, hl'.used, hl'.superseded,
          hl'.supersededUnused, hl'.unrevoked, hl'.sameDevice, hl'.childless, hl'.rotated,
          hl'.shape, hl'.newest⟩
      · refine hquiet.frame rfl rfl rfl rfl rfl (fun k hk => ?_) fun k t' hne hk => ?_
        · show (_ || _) = true
          rw [hk, Bool.true_or]
        · -- A row another transaction holds is not the one that is free for this.
          have hself : k ≠ id := by
            rintro rfl
            rcases of_decide_eq_true hfree with hnone | hown
            · rw [hk] at hnone
              cases hnone
            · exact hne (hk.symm.trans hown)
          show (s.db.logout id now).sessions.get k = _
          rw [Db.logout, Db.get_updateSession]
          simp [hself]
      · obtain rfl := Option.some.inj heq
        rw [State.txns_finish] at htxn'
        cases htxn'
    next => cases hstep

/-! ### The steps of a removal -/

theorem kept_startRemoval (hs : Sound s) {device : DeviceId}
    (hstep : s.startRemoval t device now = some s') : Kept s s' (some t) := by
  unfold State.startRemoval at hstep
  split at hstep
  next hfree =>
    obtain rfl := Option.some.inj hstep
    have hlocal : Local s { s with
        accounts := s.accounts.lock t device.userId
        txns := Function.update s.txns t (some (.removal device now [] .between)) } t :=
      ⟨rfl, rfl, fun _ hne => Function.update_of_ne hne _ _, fun _ _ _ h => h,
        fun u t' _ h => RowLocks.lock_of_held h (Or.inl (Option.isNone_iff_eq_none.mp hfree))⟩
    refine hlocal.kept hs (Function.update_self ..) ⟨RowLocks.lock_self, ?_, ?_⟩
    · rintro y (hy | hy) <;> cases hy
    · exact fun hne => absurd rfl hne
  next => cases hstep

theorem Db.mem_liveOf {db : Db} {device : DeviceId} {but : List SessionId} :
    x ∈ db.liveOf device but ↔ (∃ row, db.sessions.get x = some row ∧
      row.deviceId = some device ∧ row.revokedAt = none) ∧ x ∉ but := by
  unfold Db.liveOf Db.sorted
  rw [List.mem_insertionSort, List.mem_map]
  constructor
  · rintro ⟨⟨k, row⟩, hmem, rfl⟩
    obtain ⟨hrow, hp⟩ := (Table.mem_select_iff _ _ _ _).mp hmem
    simp only [Bool.and_eq_true, decide_eq_true_eq, Option.isNone_iff_eq_none, Bool.not_eq_true',
      List.contains_eq_mem, decide_eq_false_iff_not] at hp
    exact ⟨⟨row, hrow, hp.1.1, hp.1.2⟩, hp.2⟩
  · rintro ⟨⟨row, hrow, hdevice, hrevoked⟩, hbut⟩
    refine ⟨(x, row), (Table.mem_select_iff _ _ _ _).mpr ⟨hrow, ?_⟩, rfl⟩
    simp [hdevice, hrevoked, hbut]

/-- A live session of a lineage a removal revokes is one of the device. -/
theorem RemovalHeld.device_eq {device : DeviceId} {revoked : List SessionId} {pass : Pass}
    (hr : RemovalHeld s t device revoked pass) (hl : Lineages s.db s.history) {row : AuthSession}
    (hx : x ∈ revoked) (hrow : s.db.sessions.get y = some row)
    (hroot : s.history.root y = s.history.root x) : row.deviceId = some device := by
  obtain ⟨_, rowx, hrowx, _, hdevice⟩ := hr.held x (Or.inl hx)
  rw [hl.sameDevice y x row rowx hrow hrowx hroot, hdevice]

theorem kept_removal (hs : Sound s) {device : DeviceId} {at_ : Time} {revoked : List SessionId}
    {pass : Pass} (htxn : s.txns t = some (.removal device at_ revoked pass))
    (hstep : s.removal t device at_ revoked pass = some s') : Kept s s' (some t) := by
  have hheld : RemovalHeld s t device revoked pass := hs.held t _ htxn
  have hl := hs.lineages
  unfold State.removal at hstep
  split at hstep
  next =>
    -- A pass begins: the live sessions of the device are listed.
    obtain rfl := Option.some.inj hstep
    refine (Local.setTxn s t _).kept hs (State.txns_setTxn ..) ⟨hheld.account, ?_, ?_⟩
    · exact fun y hy => hheld.held y (hy.imp_right fun h => nomatch h)
    · intro _ x hx y hlive hroot
      obtain ⟨row, hrow, hrevoked⟩ := Db.live_iff.mp hlive
      by_cases hy : y ∈ revoked
      · exact Or.inl hy
      · refine Or.inr (Or.inr (Db.mem_liveOf.mpr ⟨⟨row, hrow, ?_, hrevoked⟩, hy⟩))
        exact hheld.device_eq hl hx hrow hroot
  next since acquired id todo skipped =>
    -- A listed row that is passed over is not a live one of the device any more.
    have hskip : (∀ row, s.db.sessions.get id = some row → row.revokedAt = none →
          row.deviceId ≠ some device) →
        Kept s (s.setTxn t (.removal device at_ revoked
          (.locking since acquired todo (skipped ++ [id])))) (some t) := fun hother => by
      refine (Local.setTxn s t _).kept hs (State.txns_setTxn ..) ⟨hheld.account, hheld.held, ?_⟩
      intro _ x hx y hlive hroot
      rcases hheld.covered nofun x hx y hlive hroot with h | h | h
      · exact Or.inl h
      · exact Or.inr (Or.inl h)
      · rcases List.mem_cons.mp h with rfl | h
        · obtain ⟨row, hrow, hrevoked⟩ := Db.live_iff.mp hlive
          exact absurd (hheld.device_eq hl hx hrow hroot) (hother row hrow hrevoked)
        · exact Or.inr (Or.inr h)
    split at hstep
    next hgone =>
      obtain rfl := Option.some.inj hstep
      exact hskip fun row hrow => absurd (hgone.symm.trans hrow) nofun
    next row hrow =>
      split at hstep
      next => cases hstep
      next hfree =>
        have hfree' : s.available t id = true := Bool.not_eq_false _ ▸ hfree
        split at hstep
        next hmine =>
          obtain rfl := Option.some.inj hstep
          have hlocal := (Local.lockRow hfree').trans (Local.setTxn (s.lockRow t id) t
            (.removal device at_ revoked (.locking since (acquired ++ [id]) todo skipped)))
          refine hlocal.kept hs (State.txns_setTxn ..) ⟨hheld.account, fun y hy => ?_, ?_⟩
          · by_cases heq : y = id
            · subst heq
              exact ⟨RowLocks.lock_self, row, hrow, hmine⟩
            · have hy' : y ∈ revoked ∨ y ∈ acquired :=
                hy.imp_right fun h => (List.mem_append.mp h).resolve_right (by simpa using heq)
              obtain ⟨hrows, hrest⟩ := hheld.held y hy'
              exact ⟨RowLocks.lock_of_held hrows (of_decide_eq_true hfree'), hrest⟩
          · intro _ x hx y hlive hroot
            rcases hheld.covered nofun x hx y hlive hroot with h | h | h
            · exact Or.inl h
            · exact Or.inr (Or.inl (List.mem_append_left _ h))
            · rcases List.mem_cons.mp h with rfl | h
              · exact Or.inr (Or.inl (List.mem_append_right _ (List.mem_singleton_self y)))
              · exact Or.inr (Or.inr h)
        next hother =>
          obtain rfl := Option.some.inj hstep
          refine hskip fun row' hrow' hrevoked hdevice => hother ?_
          obtain rfl := Option.some.inj (hrow.symm.trans hrow')
          exact ⟨hrevoked, hdevice⟩
  next id acquired =>
    -- The pass is over, and its rows are revoked.
    obtain rfl := Option.some.inj hstep
    refine (Local.setTxn s t _).kept hs (State.txns_setTxn ..)
      ⟨hheld.account, fun y hy => hheld.held y ?_, fun hne => absurd rfl hne⟩
    rcases hy with hy | hy
    · exact List.mem_append.mp hy
    · cases hy
  next =>
    -- A pass that locked nothing is the last one.
    obtain rfl := Option.some.inj hstep
    exact (Local.setTxn s t _).kept hs (State.txns_setTxn ..)
      ⟨hheld.account, hheld.held, fun _ => hheld.covered nofun⟩
  next => cases hstep

/-- The sessions a removal has gone through to the end of are whole lineages. -/
theorem RemovalHeld.quiet {device : DeviceId} {revoked : List SessionId}
    (hheld : RemovalHeld s t device revoked .done) (hl : Lineages s.db s.history) (now : Time) :
    Quiet s.history.root s.db (s.db.revokeAll revoked now) := by
  refine hl.quiet_revokeAll (fun x hx => ?_) (fun x hx y hlive hroot => ?_) now
  · obtain ⟨_, row, hrow, hrevoked, _⟩ := hheld.held x (Or.inl hx)
    exact Db.live_iff.mpr ⟨row, hrow, hrevoked⟩
  · rcases hheld.covered nofun x hx y hlive hroot with h | h | h
    · exact h
    · cases h
    · cases h

theorem kept_commitRemoval (hs : Sound s) {device : DeviceId} {revoked : List SessionId}
    {at_ : Time} (htxn : s.txns t = some (.removal device at_ revoked .done)) :
    Kept s (s.commitRemoval t device now revoked) (some t) := by
  have hheld : RemovalHeld s t device revoked .done := hs.held t _ htxn
  have hquiet := hheld.quiet hs.lineages now
  have hl' := hs.lineages.quiet hquiet
  have hobserve := hl'.observe_eq
  refine ⟨?_, Frame.trans_local ?_ (Local.finish _ t), fun t' txn heq htxn' => ?_⟩
  · show Lineages (s.db.revokeAll revoked now) _
    dsimp only [State.commitRemoval, State.finish, State.write]
    rw [hobserve]
    exact ⟨hl'.bound, hl'.fresh, hl'.root_le, hl'.child, hl'.next, hl'.used, hl'.superseded,
      hl'.supersededUnused, hl'.unrevoked, hl'.sameDevice, hl'.childless, hl'.rotated,
      hl'.shape, hl'.newest⟩
  · refine hquiet.frame rfl rfl rfl rfl rfl (fun k hk => ?_) fun k t' hne hk => ?_
    · show (_ || _) = true
      rw [hk, Bool.true_or]
    · have hnot : k ∉ revoked := fun hmem =>
        hne (hk.symm.trans (hheld.held k (Or.inl hmem)).1)
      show (s.db.revokeAll revoked now).sessions.get k = _
      rw [Db.get_revokeAll]
      simp [hnot]
  · obtain rfl := Option.some.inj heq
    rw [State.commitRemoval, State.txns_finish] at htxn'
    cases htxn'

/-! ### Sign-in and prune -/

theorem kept_login (hs : Sound s) {device : DeviceId} {replaced : List DeviceId}
    (hstep : s.login cfg device replaced now = some s') : Kept s s' none := by
  unfold State.login at hstep
  dsimp only at hstep
  split at hstep
  next hguard =>
    obtain rfl := Option.some.inj hstep
    have hquiet : Quiet s.history.root s.db (s.db.forgetDevices replaced) :=
      quiet_forgetDevices replaced
    have hl := hs.lineages.quiet hquiet
    have hlogin := hl.login cfg device now
    refine ⟨hlogin, ?_, nofun⟩
    have hget : ∀ k, k < s.db.nextSession →
        ((s.db.forgetDevices replaced).login cfg device now).sessions.get k =
          (s.db.sessions.get k).map fun row =>
            { row with deviceId := row.deviceId.filter fun d => !replaced.contains d } := by
      intro k hlt
      have hne : k ≠ (s.db.forgetDevices replaced).nextSession := Nat.ne_of_lt hlt
      rw [Db.login, Db.get_insertSession, if_neg hne, Db.get_forgetDevices]
    have hroot : ∀ k, (s.history.login s.db.nextSession device).root k =
        if k = s.db.nextSession then s.db.nextSession else s.history.root k := fun k =>
      Function.update_apply ..
    refine {
      txns := fun _ _ => rfl
      rows := fun k t _ hk => ⟨hk, fun hlt => ?_⟩
      accounts := fun _ _ _ hu => hu
      nextSession := Nat.le_succ _
      gone := fun k hlt hk => ?_
      live := fun k hlt hk => ?_
      root := fun k hlt => (hroot k).trans (if_neg (Nat.ne_of_lt hlt))
      rotatedFrom := fun _ _ => rfl
      used := fun k hk => ?_
      born := fun k hge hlt x t _ _ hlive => ?_ }
    case refine_1 =>
      refine (hget k hlt).trans ?_
      cases hrow : s.db.sessions.get k with
      | none => rfl
      | some row =>
        -- The deleted devices' sessions are locked by no other transaction.
        have hkept : ¬ row.deviceId.any replaced.contains = true := fun hany => by
          have hunlocked := List.all_eq_true.mp hguard.2.2 (k, row)
            ((Table.mem_select_iff _ _ _ _).mpr ⟨hrow, hany⟩)
          rw [State.unlocked, hk] at hunlocked
          cases hunlocked
        have hsame : (row.deviceId.filter fun d => !replaced.contains d) = row.deviceId := by
          cases hdevice : row.deviceId with
          | none => rfl
          | some d =>
            rw [hdevice, Option.any_some] at hkept
            rw [Option.filter_some, if_pos (by simpa using hkept)]
        show some { row with deviceId := row.deviceId.filter _ } = some row
        rw [hsame]
    case refine_2 =>
      change (((s.db.forgetDevices replaced).login cfg device now).sessions.get k).isSome = true at hk
      rwa [hget k hlt, Option.isSome_map] at hk
    case refine_3 =>
      obtain ⟨row', hrow', hrevoked⟩ := Db.live_iff.mp hk
      obtain ⟨row, hrow, rfl⟩ := Option.map_eq_some_iff.mp ((hget k hlt).symm.trans hrow')
      exact Db.live_iff.mpr ⟨row, hrow, hrevoked⟩
    case refine_4 =>
      show (_ || _) = true
      exact Bool.or_eq_true_iff.mpr (Or.inl hk)
    case refine_5 =>
      obtain ⟨row, hrow, _⟩ := Db.live_iff.mp hlive
      have hx := hs.lineages.bound x row hrow
      obtain rfl : k = s.db.nextSession := Nat.le_antisymm (Nat.le_of_lt_succ hlt) hge
      intro heq
      have hself := ((hroot s.db.nextSession).trans (if_pos rfl)).symm.trans heq
      exact absurd hx (Nat.not_lt.mpr (hself ▸ hs.lineages.root_le x))
  next => cases hstep

theorem kept_prune (hs : Sound s) {ids : List SessionId} {cutoff : Time}
    (hstep : s.prune ids cutoff = some s') : Kept s s' none := by
  unfold State.prune at hstep
  dsimp only at hstep
  split at hstep
  next hfree =>
    obtain rfl := Option.some.inj hstep
    have hquiet := hs.lineages.quiet_prune ids cutoff
    have hl' := hs.lineages.quiet hquiet
    refine ⟨?_, ?_, nofun⟩
    · show Lineages _ (s.history.observe _)
      rw [hl'.observe_eq]
      exact hl'
    · refine hquiet.frame rfl rfl rfl rfl rfl (fun k hk => ?_) fun k t' _ hk => ?_
      · show (_ || _) = true
        rw [hk, Bool.true_or]
      · show (s.db.pruneExpired ids cutoff).sessions.get k = _
        rw [Db.get_pruneExpired]
        cases hrow : s.db.sessions.get k with
        | none => rfl
        | some row =>
          -- A row another transaction holds is not deleted, nor is the one it points at.
          have hkept : ¬ (((s.db.sessions.select (Db.pruned ids cutoff)).map Prod.fst).contains k ||
              row.replacedBySessionId.any
                ((s.db.sessions.select (Db.pruned ids cutoff)).map Prod.fst).contains) = true := by
            intro htouched
            have hunlocked := List.all_eq_true.mp hfree (k, row)
              ((Table.mem_select_iff _ _ _ _).mpr ⟨hrow, htouched⟩)
            rw [State.unlocked, hk] at hunlocked
            cases hunlocked
          rw [Bool.or_eq_true, not_or] at hkept
          have hnot : Db.pruned ids cutoff k row = false := Bool.eq_false_iff.mpr fun hp =>
            hkept.1 (by simpa using ⟨row, (Table.mem_select_iff _ _ _ _).mpr ⟨hrow, hp⟩⟩)
          rw [Option.filter_some, hnot]
          have hsame : (row.replacedBySessionId.filter fun next =>
              !((s.db.sessions.select (Db.pruned ids cutoff)).map Prod.fst).contains next) =
              row.replacedBySessionId := by
            cases hnext : row.replacedBySessionId with
            | none => rfl
            | some next =>
              rw [hnext, Option.any_some] at hkept
              rw [Option.filter_some, if_pos (by simpa using hkept.2)]
          show some (row.link _) = some row
          rw [hsame, AuthSession.link]
  next => cases hstep

/-! ### Every step -/

theorem kept_startRefresh (hs : Sound s) (hnone : s.txns t = none) :
    Kept s (s.startRefresh t id).1 (some t) := by
  unfold State.startRefresh
  split
  next => exact (Local.refl s t).kept_over hs hnone
  next row hrow =>
    refine (Local.setTxn s t _).kept hs (State.txns_setTxn ..) ⟨?_, nofun, nofun⟩
    exact hs.lineages.bound id row hrow

theorem kept_startRequest (hs : Sound s) (hnone : s.txns t = none) (logout active : Bool) :
    Kept s (s.startRequest t id logout active).1 (some t) := by
  unfold State.startRequest
  split
  next => exact (Local.refl s t).kept_over hs hnone
  next row hrow =>
    have hbound := hs.lineages.bound id row hrow
    split
    next => exact (Local.refl s t).kept_over hs hnone
    next =>
      split
      next hfirst =>
        split
        next =>
          refine (Local.setTxn s t _).kept hs (State.txns_setTxn ..) ⟨hbound, fun _ => ?_⟩
          show s.history.used id = true
          rw [hs.lineages.used id row hrow]
          exact Option.isSome_iff_ne_none.mpr hfirst
        next => exact (Local.refl s t).kept_over hs hnone
      next =>
        split
        next => exact (Local.setTxn s t _).kept hs (State.txns_setTxn ..) hbound
        next =>
          exact (Local.setTxn s t _).kept hs (State.txns_setTxn ..) ⟨hbound, nofun, nofun⟩

/-- **Every step** keeps what holds of the lineages and leaves the others what they hold. -/
theorem kept_act (hs : Sound s) {l : Label} {answer : Option Answer}
    (hact : act cfg s l = some (s', answer)) : Kept s s' l.owner := by
  cases l with
  | login device replaced now =>
    obtain ⟨s₁, hlogin, heq⟩ := Option.map_eq_some_iff.mp hact
    obtain ⟨rfl, _⟩ := Prod.mk.inj heq
    exact kept_login hs hlogin
  | refresh t id =>
    obtain ⟨hnone, hsome⟩ := Option.ite_none_right_eq_some.mp hact
    obtain rfl := (congrArg Prod.fst (Option.some.inj hsome)).symm
    exact kept_startRefresh hs hnone
  | request t id logout active =>
    obtain ⟨hnone, hsome⟩ := Option.ite_none_right_eq_some.mp hact
    obtain rfl := (congrArg Prod.fst (Option.some.inj hsome)).symm
    exact kept_startRequest hs hnone logout active
  | lockMissing t =>
    obtain ⟨txn, htxn, hbind⟩ := Option.bind_eq_some_iff.mp hact
    obtain ⟨c, hc, hmap⟩ := Option.bind_eq_some_iff.mp hbind
    obtain ⟨s₁, hstep, heq⟩ := Option.map_eq_some_iff.mp hmap
    obtain ⟨rfl, _⟩ := Prod.mk.inj heq
    exact kept_lockMissing hs htxn hc hstep
  | lockNext t =>
    obtain ⟨txn, htxn, hbind⟩ := Option.bind_eq_some_iff.mp hact
    obtain ⟨c, hc, hmap⟩ := Option.bind_eq_some_iff.mp hbind
    obtain ⟨s₁, hstep, heq⟩ := Option.map_eq_some_iff.mp hmap
    obtain ⟨rfl, _⟩ := Prod.mk.inj heq
    exact kept_lockNext hs htxn hc hstep
  | lockSelf t now =>
    simp only [act] at hact
    split at hact
    next id logout htxn => exact kept_lockSelf hs htxn hact
    next => cases hact
  | finishRefresh t active now =>
    simp only [act] at hact
    split at hact
    next c htxn => exact kept_finishRefresh hs htxn hact
    next => cases hact
  | finishClaim t now =>
    simp only [act] at hact
    split at hact
    next c logout htxn => exact kept_finishClaim hs htxn hact
    next => cases hact
  | logout t now =>
    simp only [act] at hact
    split at hact
    next id htxn => exact kept_logout hs htxn hact
    next => cases hact
  | startRemoval t device now =>
    obtain ⟨_, hsome⟩ := Option.ite_none_right_eq_some.mp hact
    obtain ⟨s₁, hstep, heq⟩ := Option.map_eq_some_iff.mp hsome
    obtain ⟨rfl, _⟩ := Prod.mk.inj heq
    exact kept_startRemoval hs hstep
  | removal t =>
    simp only [act] at hact
    split at hact
    next device now revoked pass htxn =>
      obtain ⟨s₁, hstep, heq⟩ := Option.map_eq_some_iff.mp hact
      obtain ⟨rfl, _⟩ := Prod.mk.inj heq
      exact kept_removal hs htxn hstep
    next => cases hact
  | commitRemoval t =>
    simp only [act] at hact
    split at hact
    next device now revoked htxn =>
      obtain ⟨rfl, _⟩ := Prod.mk.inj (Option.some.inj hact)
      exact kept_commitRemoval hs htxn
    next => cases hact
  | prune ids cutoff =>
    obtain ⟨s₁, hstep, heq⟩ := Option.map_eq_some_iff.mp hact
    obtain ⟨rfl, _⟩ := Prod.mk.inj heq
    exact kept_prune hs hstep
  | abort t =>
    obtain ⟨_, hsome⟩ := Option.ite_none_left_eq_some.mp hact
    obtain ⟨rfl, _⟩ := Prod.mk.inj (Option.some.inj hsome)
    exact (Local.finish s t).kept_over hs (State.txns_finish s t)

/-- Before anything has happened there is no session. -/
theorem get_initial (k : SessionId) (row : AuthSession) :
    State.initial.db.sessions.get k ≠ some row := (Option.some_ne_none row).symm

theorem Sound.initial : Sound State.initial where
  lineages := {
    bound := fun k row hrow => absurd hrow (get_initial k row)
    fresh := fun _ _ => ⟨rfl, rfl, rfl⟩
    root_le := fun _ => Nat.le_refl _
    child := fun _ parent hparent => absurd hparent.symm (Option.some_ne_none parent)
    next := fun k row _ hrow => absurd hrow (get_initial k row)
    used := fun k row hrow => absurd hrow (get_initial k row)
    superseded := fun k row hrow => absurd hrow (get_initial k row)
    supersededUnused := fun k row hrow => absurd hrow (get_initial k row)
    unrevoked := fun k row hrow => absurd hrow (get_initial k row)
    sameDevice := fun x _ row _ hrow => absurd hrow (get_initial x row)
    childless := fun _ parent hparent => absurd hparent.symm (Option.some_ne_none parent)
    rotated := fun k row _ hrow => absurd hrow (get_initial k row)
    shape := fun ρ => by
      have hnone : siblings State.initial.db State.initial.history.root ρ = [] := by
        refine List.eq_nil_iff_forall_not_mem.mpr fun x hx => ?_
        obtain ⟨row, hrow, _⟩ := Db.live_iff.mp (mem_siblings.mp hx).2.1
        exact get_initial x row hrow
      rw [hnone]
      exact Shape.ended
    newest := fun k row _ _ hrow => absurd hrow (get_initial k row) }
  held := fun _ txn htxn => absurd htxn.symm (Option.some_ne_none txn)

theorem Sound.step {l : Label} (hs : Sound s) (hstep : Auth.step cfg s l = some s') : Sound s' := by
  obtain ⟨⟨s₁, answer⟩, hact, rfl⟩ := Option.map_eq_some_iff.mp hstep
  exact (kept_act hs hact).sound hs

/-- **What holds of every state** a run comes to. -/
theorem Sound.run {ls : List Label} (hrun : FreeRun (Auth.step cfg) State.initial ls s) :
    Sound s :=
  hrun.invariant Sound Sound.initial fun _ _ _ hs _ hstep => hs.step hstep

end TigerDuck.Auth
