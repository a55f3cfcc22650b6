import TigerDuck.Auth.Effects

/-!
# A client on a bad network

One client holds a login. What it has sent may reach the server late, more than once, in any
order or never, and of the replies to a refresh it may receive any, so it is a machine beside the
server's (`World`): the refresh tokens and access tokens it has sent stay on their way, and the
pair of any session its stored refresh token was rotated into may come back.

If nothing signs the login out and no pair it stores has been rotated past more than fifteen
times, its stored refresh token is never answered as revoked. Its stored access token is once
the server has rotated the stored pair, of which the reply may still be on its way
(`stored_access_token_is_revoked`), and only then (`honest_client_stays_signed_in`).
-/

namespace TigerDuck.Auth

open Relational Transition

/-- The server, and a client of it. A session stands for its token pair. -/
structure World where
  server : State
  /-- The pair the client has stored. -/
  stored : SessionId
  /-- The refresh tokens it has sent. -/
  sentRefresh : SessionId → Bool
  /-- The access tokens it has sent. -/
  sentRequest : SessionId → Bool

/-- What can happen next. -/
inductive Event
  | sendRefresh
  | sendRequest
  | server (l : Label)
  /-- A reply to a refresh of the stored token is stored. -/
  | receive (id : SessionId)

namespace World

/-- The client has its login's reply. -/
def start (s : State) (id : SessionId) : World := ⟨s, id, fun _ => false, fun _ => false⟩

def step (cfg : Settings) (w : World) : Event → Option World
  | .sendRefresh => some { w with sentRefresh := Function.update w.sentRefresh w.stored true }
  | .sendRequest => some { w with sentRequest := Function.update w.sentRequest w.stored true }
  | .server l => (Auth.step cfg w.server l).map fun s => { w with server := s }
  | .receive id =>
    if w.server.history.rotatedFrom id = some w.stored then some { w with stored := id } else none

/-- Whether a session is of the client's login. -/
def ours (w : World) (id : SessionId) : Bool :=
  decide (w.server.history.root id = w.server.history.root w.stored)

/-- What reaches the server for the client's login was sent by the client, it is no logout, and
neither a suspension nor the removal of its device nor the expiry of its sessions interferes. -/
def undisturbed (w : World) : Label → Bool
  | .refresh _ id => !w.ours id || w.sentRefresh id
  | .request _ id logout active => !w.ours id || (w.sentRequest id && !logout && active)
  | .finishRefresh t active now =>
    match w.server.txns t with
    | some (.refresh c) => !w.ours c.id ||
        (active && (w.server.db.sessions.get c.id).all fun row => decide (now < row.expiresAt))
    | _ => true
  | .startRemoval _ device _ =>
    (w.server.db.sessions.get w.stored).all fun row => decide (row.deviceId ≠ some device)
  | .prune _ cutoff =>
    (w.server.db.sessions.select fun id row =>
      w.ours id && decide (row.expiresAt < cutoff)).isEmpty
  | _ => true

/-- While the stored pair is unused, the token it was rotated from has been rotated at most
fifteen times since. -/
def fewRetries (w : World) : Bool :=
  w.server.history.used w.stored || (w.server.history.rotatedFrom w.stored).all fun parent =>
    decide (((children w.server.db w.server.history.rotatedFrom parent).filter
      (w.stored < ·)).length ≤ 15)

/-- Whether an event is one of an honest client's login. -/
def honest (cfg : Settings) (w : World) (e : Event) : Bool :=
  (match e with
    | .server l => w.undisturbed l
    | _ => true) && (w.step cfg e).all fewRetries

end World

/-- What the answer of a step is to. -/
def State.about (s : State) : Label → Option Subject
  | .refresh _ id => some (.refresh id)
  | .request _ id logout _ => some (.request id logout)
  | .lockSelf t _ => (s.txns t).map Txn.subject
  | .finishRefresh t _ _ => (s.txns t).map Txn.subject
  | .finishClaim t _ => (s.txns t).map Txn.subject
  | .logout t _ => (s.txns t).map Txn.subject
  | _ => none

variable {s s' : State} {t : TxnId} {id x y k c : SessionId} {now : Time} {cfg : Settings}
  {answer : Option Answer} {w w' : World}

/-! ### A stored pair -/

/-- The session is live, or its token was rotated and the newest rotation is live and unused. -/
def SignedIn (s : State) (c : SessionId) : Prop :=
  ∃ row, s.db.sessions.get c = some row ∧ (row.revokedAt = none ∨
    row.revokedReason = some .rotated ∧ row.revokedAt ≠ none ∧
      ∃ next row', row.replacedBySessionId = some next ∧ s.db.sessions.get next = some row' ∧
        row'.revokedAt = none ∧ row'.firstUsedAt = none)

/-- A session whose row is the same in what counts for `SignedIn`. -/
def SameRow (s s' : State) (k : SessionId) : Prop :=
  ∀ row, s.db.sessions.get k = some row → ∃ row', s'.db.sessions.get k = some row' ∧
    row'.revokedAt = row.revokedAt ∧ row'.revokedReason = row.revokedReason ∧
    row'.replacedBySessionId = row.replacedBySessionId ∧ row'.firstUsedAt = row.firstUsedAt

theorem SameRow.of_get (h : s'.db.sessions.get k = s.db.sessions.get k) : SameRow s s' k :=
  fun row hrow => ⟨row, h.trans hrow, rfl, rfl, rfl, rfl⟩

theorem SignedIn.same (hin : SignedIn s c) (hl : Lineages s.db s.history)
    (hsame : ∀ k, s.history.root k = s.history.root c → SameRow s s' k) : SignedIn s' c := by
  obtain ⟨row, hrow, hcase⟩ := hin
  obtain ⟨row', hrow', hrevoked, hreason, hnext, _⟩ := hsame c rfl row hrow
  refine ⟨row', hrow', ?_⟩
  rcases hcase with hlive | ⟨hrotated, hdead, next, rown, hn, hrown, hliven, hunused⟩
  · exact Or.inl (hrevoked.trans hlive)
  · obtain ⟨rown', hrown', hrevokedn, _, _, hfirst⟩ :=
      hsame next (hl.next c row next hrow hn).2 rown hrown
    exact Or.inr ⟨hreason.trans hrotated, hrevoked ▸ hdead, next, rown', hnext.trans hn, hrown',
      hrevokedn.trans hliven, hfirst.trans hunused⟩

/-- **A refresh of a stored token** makes a session. -/
theorem refresh_ok (hin : SignedIn s c) (cfg : Settings)
    (hvalid : ∀ row, s.db.sessions.get c = some row → now < row.expiresAt) :
    ∃ newId, (s.db.refresh cfg c true now).2 = .ok newId := by
  obtain ⟨row, hrow, hcase⟩ := hin
  have hexpires : ¬ row.expiresAt ≤ now := Nat.not_le.mpr (hvalid row hrow)
  unfold Db.refresh
  rw [hrow]
  dsimp only
  rw [if_neg (by decide)]
  rcases hcase with hlive | ⟨hrotated, hdead, next, row', hnext, hrow', hlive, hunused⟩
  · rw [hlive]
    dsimp only
    rw [if_neg hexpires]
    exact ⟨_, rfl⟩
  · obtain ⟨revokedAt, hrevoked⟩ := Option.ne_none_iff_exists'.mp hdead
    rw [hrevoked]
    dsimp only
    unfold Db.handleRevokedReuse
    have hmay : Db.mayRotateAgain row (some row') = true := by
      simp [Db.mayRotateAgain, hrotated, hlive, hunused]
    rw [hrotated, if_neg (by decide), hnext]
    simp only [Option.bind_some, hrow', Option.map_some, hmay, if_true, if_neg hexpires]
    exact ⟨_, rfl⟩

/-! ### Lineages that a step is not about -/

/-- Linked sessions are of one lineage. -/
theorem root_of_mem_linkedIds {db : Db} {h : History} (hl : Lineages db h)
    (hy : y ∈ db.linkedIds x) : h.root y = h.root x := by
  have hpointee : ∀ k row next, db.sessions.get k = some row → db.pointee row = some next →
      h.root next = h.root k := fun k row next hrow hnext =>
    (hl.next k row next hrow (Option.filter_eq_some_iff.mp hnext).1).2
  cases hrow : db.sessions.get x with
  | none => simp [Db.linkedIds, hrow] at hy
  | some row =>
    rcases (mem_linkedIds hrow).mp hy with rfl | ⟨next, hnext, hleads⟩
    · rfl
    · induction hleads with
      | refl => exact hpointee x row _ hrow hnext
      | tail hpath hstep ih =>
        obtain ⟨rowk, hrowk, hif⟩ := Option.bind_eq_some_iff.mp hstep
        split at hif
        · refine (hpointee _ rowk _ hrowk hif).trans (ih ?_)
          exact (mem_linkedIds hrow).mpr (Or.inr ⟨next, hnext, hpath⟩)
        · cases hif

theorem get_use_of_other {db : Db} {h : History} (hl : Lineages db h) {row : AuthSession}
    (hrow : db.sessions.get id = some row) (hrevoked : row.revokedAt = none)
    (hroot : h.root k ≠ h.root id) :
    ((db.settled id row now).updateSession id (·.use now)).sessions.get k =
      db.sessions.get k := by
  have hne : k ≠ id := fun heq => hroot (heq ▸ rfl)
  have hnot : k ∉ siblings db h.root (h.root id) := fun hmem => hroot (mem_siblings.mp hmem).2.2
  rw [Db.get_updateSession, get_settled hl hrow hrevoked, if_neg hne, if_neg hnot]
  cases db.sessions.get k <;> simp [hne]

/-- The session a transaction is about was there when it began. -/
theorem Sound.subject_lt (hs : Sound s) {txn : Txn} (htxn : s.txns t = some txn) :
    (txn.subject = .refresh id → id < s.db.nextSession) ∧
      ∀ logout, txn.subject = .request id logout → id < s.db.nextSession := by
  have hheld := hs.held t txn htxn
  cases txn with
  | refresh contest =>
    refine ⟨fun h => ?_, fun _ h => (nomatch h)⟩
    exact Subject.refresh.inj h ▸ ContestHeld.id_lt hheld
  | lockSelf _ _ => exact ⟨fun h => (nomatch h), fun _ h => (Subject.request.inj h).1 ▸ hheld⟩
  | claimContest contest _ =>
    exact ⟨fun h => (nomatch h), fun _ h => (Subject.request.inj h).1 ▸ ContestHeld.id_lt hheld⟩
  | logout _ => exact ⟨fun h => (nomatch h), fun _ h => (Subject.request.inj h).1 ▸ hheld.1⟩
  | removal _ _ _ _ => exact ⟨fun h => (nomatch h), fun _ h => (nomatch h)⟩

/-! ### What holds of an honest client -/

/-- What a transaction under way is about, if it is about the client's login. -/
def Expected (w : World) : Subject → Prop
  | .refresh id => w.ours id = true → w.sentRefresh id = true
  | .request id logout => w.ours id = true → w.sentRequest id = true ∧ logout = false
  | .removal device =>
    ∀ row, w.server.db.sessions.get w.stored = some row → row.deviceId ≠ some device

/-- What holds of a client's world. -/
structure World.Sound (w : World) : Prop where
  server : Auth.Sound w.server
  signedIn : SignedIn w.server w.stored
  /-- The pairs it has sent but for the stored one are spent. -/
  spent : ∀ id, w.sentRefresh id = true ∨ w.sentRequest id = true →
    id = w.stored ∨ (id < w.server.db.nextSession ∧ w.server.db.live id = false)
  expected : ∀ t txn, w.server.txns t = some txn → Expected w txn.subject

namespace World

/-- A session of the client's login that is live and was sent is the stored one. -/
theorem Sound.eq_stored (hw : w.Sound) (hsent : w.sentRefresh id = true ∨ w.sentRequest id = true)
    (hlive : w.server.db.live id = true) : id = w.stored := by
  rcases hw.spent id hsent with heq | ⟨_, hdead⟩
  · exact heq
  · rw [hlive] at hdead
    cases hdead

theorem ours_iff : w.ours id = true ↔ w.server.history.root id = w.server.history.root w.stored :=
  decide_eq_true_iff

end World

/-- The kept of a list are those that few follow. -/
theorem mem_newest {ids : List SessionId} (hsorted : ids.Pairwise (· < ·)) (hx : x ∈ ids)
    (hfew : (ids.filter (x < ·)).length ≤ 15) : x ∈ newest ids := by
  unfold newest
  obtain ⟨before, after, rfl⟩ := List.append_of_mem hx
  have hafter : ∀ y ∈ after, x < y := fun y hy =>
    List.rel_of_pairwise_cons (List.pairwise_append.mp hsorted).2.1 hy
  have hle : after.length ≤ 15 := by
    have hsub : after ⊆ (before ++ x :: after).filter (x < ·) := fun y hy =>
      List.mem_filter.mpr ⟨by simp [hy], by simpa using hafter y hy⟩
    have hnodup : after.Nodup := by
      have hpairs := (List.pairwise_cons.mp (List.pairwise_append.mp hsorted).2.1).2
      exact hpairs.imp Nat.ne_of_lt
    exact ((List.subperm_of_subset hnodup hsub).length_le).trans hfew
  have hkept : UNUSED_SESSIONS_KEPT = 16 := rfl
  rw [List.length_append, List.length_cons, List.drop_append_of_le_length (by omega)]
  simp

/-- **The effects that are not about the client's login** leave its rows as they are. -/
theorem sameRow_of_refreshed {c : Contest} {active : Bool} (hs : Sound s)
    (hdb : s'.db = (s.db.refresh cfg c.id active now).1)
    (hroot : s.history.root k ≠ s.history.root c.id) (hk : k < s.db.nextSession) :
    SameRow s s' k := by
  have hr : Refreshed cfg s.db s.history c.id now _ _ := refreshed hs.lineages cfg active
  refine SameRow.of_get ?_
  rw [hdb]
  exact hr.get_of_not_linked hs.lineages (fun hmem => hroot (root_of_mem_linkedIds hs.lineages hmem))
    hk

/-- A first use in the client's login is that of the stored session, which stays live. -/
theorem signedIn_used (hw : w.Sound) {row : AuthSession}
    (htxn : ∃ t txn logout, w.server.txns t = some txn ∧ txn.subject = .request id logout)
    (hrow : w.server.db.sessions.get id = some row) (hrevoked : row.revokedAt = none)
    (hdb : s'.db = (w.server.db.settled id row now).updateSession id (·.use now)) :
    SignedIn s' w.stored := by
  obtain ⟨t, txn, logout, htxn, hsubject⟩ := htxn
  have hl := hw.server.lineages
  have hexpected : Expected w (.request id logout) := hsubject ▸ hw.expected t txn htxn
  by_cases hours : w.ours id = true
  · obtain rfl := hw.eq_stored (Or.inr (hexpected hours).1)
      (Db.live_iff.mpr ⟨row, hrow, hrevoked⟩)
    refine ⟨(row.link none).use now, ?_, Or.inl hrevoked⟩
    rw [hdb, Db.get_updateSession, get_settled hl hrow hrevoked, if_pos rfl, Option.map_some,
      if_pos rfl]
  · refine hw.signedIn.same hl fun k hk => SameRow.of_get ?_
    have hother : w.server.history.root k ≠ w.server.history.root id := fun heq =>
      hours (World.ours_iff.mpr (heq.symm.trans hk))
    rw [hdb, get_use_of_other hl hrow hrevoked hother]

/-- A refusal of another token leaves the stored session signed in. -/
theorem signedIn_refused (hw : w.Sound) (hne : id ≠ w.stored)
    (hdead : w.server.db.live id = false) {db' : Db} (hdb : s'.db = db')
    (hother : ∀ k, k ≠ id → db'.sessions.get k = w.server.db.sessions.get k) :
    SignedIn s' w.stored := by
  obtain ⟨row, hrow, hcase⟩ := hw.signedIn
  have hget : ∀ k, k ≠ id → s'.db.sessions.get k = w.server.db.sessions.get k := fun k hk =>
    hdb ▸ hother k hk
  refine ⟨row, (hget _ (Ne.symm hne)).trans hrow, hcase.imp_right ?_⟩
  rintro ⟨hrotated, hrevoked, next, row', hnext, hrow', hlive, hunused⟩
  have hnextne : next ≠ id := by
    rintro rfl
    rw [Db.live_iff.mpr ⟨row', hrow', hlive⟩] at hdead
    cases hdead
  exact ⟨hrotated, hrevoked, next, row', hnext, (hget next hnextne).trans hrow', hlive, hunused⟩

/-- A token rotated again is that of the stored pair, or of the one before, and the stored
session is among those kept. -/
theorem signedIn_again (hw : w.Sound) {token successor : AuthSession} {successorId : SessionId}
    (hretry : Retry w.server.db w.server.history id token successorId successor)
    (hours : w.ours id = true)
    (hdb : s'.db = (w.server.db.rotateAgain cfg id token successorId successor now).1)
    (hhistory : s'.history =
      (w.server.history.rotate id w.server.db.nextSession).observe s'.db)
    (hfew : World.fewRetries { w with server := s' } = true) : SignedIn s' w.stored := by
  have hl := hw.server.lineages
  have hroot := World.ours_iff.mp hours
  have hget := hretry.get_rotateAgain cfg now
  have hn : s'.db.nextSession = w.server.db.nextSession + 1 := by
    rw [hdb]
    exact Retry.nextSession_rotateAgain cfg now
  obtain ⟨row, hrow, hcase⟩ := hw.signedIn
  rcases hcase with hlive | ⟨hrotated, hdead, next, row', hnext, hrow', hliven, hunused⟩
  · -- The stored session is one of the ring, so it is a rotation of the token.
    have hmem : w.stored ∈ Retry.ring w.server.db w.server.history id := by
      rw [Retry.ring, hroot]
      exact hl.mem_siblings_self (Db.live_iff.mpr ⟨row, hrow, hlive⟩)
    have hchild : w.stored ∈ children w.server.db w.server.history.rotatedFrom id := by
      have hnewest := hmem
      rw [hretry.newest_eq] at hnewest
      exact List.mem_of_mem_drop hnewest
    have hfrom := (mem_children.mp hchild).2
    have hlt := (mem_children.mp hchild).1
    have hstored : w.stored ≠ id := by
      intro heq
      rw [heq] at hrow
      obtain rfl := Option.some.inj (hrow.symm.trans hretry.token_row)
      exact hretry.revoked hlive
    -- It is still unused, so few rotations of the token are newer.
    have hunused : s'.history.used w.stored = false := by
      rw [hhistory]
      show (w.server.history.used w.stored || _) = false
      rw [hretry.unused_child hfrom, Bool.false_or, Bool.eq_false_iff]
      intro hany
      obtain ⟨row', hrow', hfirst⟩ := (Option.any_eq_true _ _).mp hany
      rw [hdb] at hrow'
      have hr : Refreshed cfg w.server.db w.server.history id now _ _ :=
        .again token successorId successor hretry
      rcases hr.used hl hrow' hfirst with hused | ⟨heq, _⟩
      · rw [hretry.unused_child hfrom] at hused
        cases hused
      · exact hstored heq
    have hfrom' : s'.history.rotatedFrom w.stored = some id := by
      rw [hhistory]
      exact (rotate_rotatedFrom _ _ _ _).trans ((if_neg (Nat.ne_of_lt hlt)).trans hfrom)
    have hchildren : children s'.db s'.history.rotatedFrom id =
        children w.server.db w.server.history.rotatedFrom id ++ [w.server.db.nextSession] := by
      rw [hhistory]
      exact (children_rotate w.server.history hn id id).trans (if_pos rfl)
    have hnewer : ((children s'.db s'.history.rotatedFrom id).filter (w.stored < ·)).length ≤ 15 := by
      simpa [World.fewRetries, hunused, hfrom'] using hfew
    have hkept : w.stored ∈ newest (children s'.db s'.history.rotatedFrom id) :=
      mem_newest (List.pairwise_lt_range.filter _)
        (by rw [hchildren]; exact List.mem_append_left _ hchild) hnewer
    rw [hchildren, ← newest_append, ← hretry.newest_eq] at hkept
    have hsiblings := hretry.siblings_rotateAgain cfg now
    have hmem' : w.stored ∈ siblings
        (w.server.db.rotateAgain cfg id token successorId successor now).1
        (w.server.history.rotate id w.server.db.nextSession).root (w.server.history.root id) := by
      rw [hsiblings]
      rwa [newest, List.length_append, List.length_singleton,
        List.drop_append_of_le_length (Nat.le_of_lt hretry.dropped_lt)] at hkept
    obtain ⟨row', hrow', hlive'⟩ := Db.live_iff.mp (mem_siblings.mp hmem').2.1
    exact ⟨row', hdb ▸ hrow', Or.inl hlive'⟩
  · -- The live sessions are rotations of the stored token, so it is the one presented.
    have hmem : next ∈ Retry.ring w.server.db w.server.history id := by
      have hself := hl.mem_siblings_self (Db.live_iff.mpr ⟨row', hrow', hliven⟩)
      rwa [(hl.next _ row next hrow hnext).2, ← hroot] at hself
    rw [hretry.newest_eq] at hmem
    have hchild := (mem_children.mp (List.mem_of_mem_drop hmem)).2
    rw [hl.rotated _ row next hrow hrotated hnext] at hchild
    obtain rfl := Option.some.inj hchild
    refine ⟨{ token.replace w.server.db.nextSession now with rerotatedAt := some now }, ?_, Or.inr
      ⟨rfl, Option.some_ne_none _, w.server.db.nextSession, _, rfl, hdb ▸ Retry.get_new hget, rfl, rfl⟩⟩
    rw [hdb, hget, rowsWith, if_neg (Nat.ne_of_lt hretry.token_lt), if_pos rfl]

/-- A rotation of the stored session leaves it with a rotation that is live and unused. -/
theorem signedIn_rotated {db : Db} {h : History} (hl : Lineages db h) {row : AuthSession}
    (hrow : db.sessions.get id = some row) (hrevoked : row.revokedAt = none)
    (hdb : s'.db = (db.rotate cfg id row now).1) : SignedIn s' id := by
  have hlt := hl.bound id row hrow
  have hsettled : db.settled id row now = if row.revokedAt = none ∧
      row.replacedBySessionId ≠ none then db.settleContest id now else db := by
    simp [Db.settled, hrevoked]
  have hget := get_rotate hlt cfg row now _ hsettled (nextSession_settled row)
  refine ⟨(row.link none).replace db.nextSession now, ?_, Or.inr
    ⟨rfl, Option.some_ne_none _, db.nextSession,
      .insert row.userId row.deviceId (now + cfg.authRefreshTokenTtl) now, rfl, ?_, rfl, rfl⟩⟩
  · rw [hdb, hget, if_neg (Nat.ne_of_lt hlt), if_pos rfl, get_settled hl hrow hrevoked, if_pos rfl]
    rfl
  · rw [hdb, hget, if_pos rfl]

theorem signedIn_refreshed (hw : w.Sound) {t : TxnId} {ct : Contest} {active : Bool}
    (htxn : w.server.txns t = some (.refresh ct))
    (hok : w.undisturbed (.finishRefresh t active now) = true)
    (hdb : s'.db = (w.server.db.refresh cfg ct.id active now).1)
    (hhistory : s'.history = (w.server.history.refreshed ct.id
      (w.server.db.refresh cfg ct.id active now).2).observe s'.db)
    (hfew : World.fewRetries { w with server := s' } = true) : SignedIn s' w.stored := by
  have hl := hw.server.lineages
  by_cases hours : w.ours ct.id = true
  · have hexpected : Expected w (.refresh ct.id) := hw.expected t _ htxn
    have hsent : w.sentRefresh ct.id = true ∨ w.sentRequest ct.id = true :=
      Or.inl (hexpected hours)
    have hvalid : active = true ∧
        ∀ row, w.server.db.sessions.get ct.id = some row → now < row.expiresAt := by
      simp only [World.undisturbed, htxn, hours, Bool.not_true, Bool.false_or,
        Bool.and_eq_true] at hok
      refine ⟨hok.1, fun row hrow => ?_⟩
      rw [hrow] at hok
      exact of_decide_eq_true hok.2
    obtain ⟨rfl, hvalid⟩ := hvalid
    have hr : Refreshed cfg w.server.db w.server.history ct.id now _ _ := refreshed hl cfg true
    by_cases heq : ct.id = w.stored
    · -- The stored token is not refused.
      obtain ⟨newId, hresult⟩ := refresh_ok (heq ▸ hw.signedIn) cfg hvalid
      generalize w.server.db.refresh cfg ct.id true now = outcome at hr hdb hhistory hresult
      obtain ⟨db', result⟩ := outcome
      cases hresult
      cases hr with
      | rotated row hrow hrevoked => exact heq ▸ signedIn_rotated hl hrow hrevoked hdb
      | again token successorId successor hretry =>
        exact signedIn_again hw hretry hours hdb hhistory hfew
    · have hdead : w.server.db.live ct.id = false := by
        rcases hw.spent ct.id hsent with h | ⟨_, h⟩
        · exact absurd h heq
        · exact h
      generalize w.server.db.refresh cfg ct.id true now = outcome at hr hdb hhistory
      obtain ⟨db', result⟩ := outcome
      cases hr with
      | refused _ detail _ hother _ => exact signedIn_refused hw heq hdead hdb hother
      | rotated row hrow hrevoked =>
        rw [Db.live_iff.mpr ⟨row, hrow, hrevoked⟩] at hdead
        cases hdead
      | again token successorId successor hretry =>
        exact signedIn_again hw hretry hours hdb hhistory hfew
  · refine hw.signedIn.same hl fun k hk row hrow => ?_
    refine sameRow_of_refreshed hw.server hdb (fun h => hours ?_) (hl.bound k row hrow) row hrow
    exact World.ours_iff.mpr (h.symm.trans hk)

/-- A prune takes no session of the client's login. -/
theorem sameRow_of_pruned (hw : w.Sound) {ids : List SessionId} {cutoff : Time}
    (hok : w.undisturbed (.prune ids cutoff) = true)
    (hdb : s'.db = w.server.db.pruneExpired ids cutoff)
    (hk : w.server.history.root k = w.server.history.root w.stored) :
    SameRow w.server s' k := by
  have hl := hw.server.lineages
  have hkept : ∀ j row, w.server.history.root j = w.server.history.root w.stored →
      w.server.db.sessions.get j = some row → Db.pruned ids cutoff j row = false := by
    intro j row hj hrow
    rw [Bool.eq_false_iff]
    intro hpruned
    have hmem : (j, row) ∈ w.server.db.sessions.select fun id row =>
        w.ours id && decide (row.expiresAt < cutoff) := by
      refine (Table.mem_select_iff _ _ _ _).mpr ⟨hrow, ?_⟩
      simp only [Db.pruned, Db.prunable, Bool.and_eq_true] at hpruned
      rw [World.ours_iff.mpr hj, Bool.true_and]
      exact hpruned.2.1
    rw [List.isEmpty_iff.mp hok] at hmem
    cases hmem
  intro row hrow
  have hlink : (row.replacedBySessionId.filter fun next =>
      !((w.server.db.sessions.select (Db.pruned ids cutoff)).map Prod.fst).contains next) =
      row.replacedBySessionId := by
    cases hnext : row.replacedBySessionId with
    | none => rfl
    | some next =>
      rw [Option.filter_some, if_pos]
      simp only [Bool.not_eq_true', List.contains_eq_mem, decide_eq_false_iff_not, List.mem_map,
        not_exists, not_and]
      rintro ⟨j, rowj⟩ hmem rfl
      obtain ⟨hrowj, hpruned⟩ := (Table.mem_select_iff _ _ _ _).mp hmem
      have hroot := (hl.next k row j hrow hnext).2.trans hk
      rw [hkept j rowj hroot hrowj] at hpruned
      cases hpruned
  refine ⟨row, ?_, rfl, rfl, rfl, rfl⟩
  rw [hdb, Db.get_pruneExpired, hrow, Option.filter_some, hkept k row hk hrow]
  show some (row.link _) = some row
  rw [hlink, AuthSession.link]

/-- **A step of the server** leaves the stored session signed in. -/
theorem signedIn_act (hw : w.Sound) {l : Label} (hok : w.undisturbed l = true)
    (hact : act cfg w.server l = some (s', answer))
    (hfew : World.fewRetries { w with server := s' } = true) : SignedIn s' w.stored := by
  have hs := hw.server
  have hl := hs.lineages
  cases effect_act hs hact with
  | «local» _ hdb _ => exact hw.signedIn.same hl fun k _ => SameRow.of_get (by rw [hdb])
  | used _ id row now htxn hrow hrevoked hdb _ => exact signedIn_used hw htxn hrow hrevoked hdb
  | refreshed t ct active now htxn hdb hhistory =>
    exact signedIn_refreshed hw htxn hok hdb hhistory hfew
  | signedIn device replaced now _ hdb _ =>
    refine hw.signedIn.same hl fun k _ row hrow => ?_
    have hne : k ≠ (w.server.db.forgetDevices replaced).nextSession :=
      Nat.ne_of_lt (hl.bound k row hrow)
    refine ⟨{ row with deviceId := row.deviceId.filter fun d => !replaced.contains d }, ?_,
      rfl, rfl, rfl, rfl⟩
    rw [hdb, Db.login, Db.get_insertSession, if_neg hne, Db.get_forgetDevices, hrow]
    rfl
  | loggedOut t id row now htxn _ _ hdb _ =>
    -- The client's login has no logout under way.
    have hexpected : Expected w (.request id true) := hw.expected t _ htxn
    refine hw.signedIn.same hl fun k hk => SameRow.of_get ?_
    have hne : k ≠ id := by
      rintro rfl
      cases (hexpected (World.ours_iff.mpr hk)).2
    rw [hdb, Db.logout, Db.get_updateSession]
    cases w.server.db.sessions.get k <;> simp [hne]
  | removed t device now revoked htxn hdb _ =>
    -- Nor is its device being removed.
    have hexpected : Expected w (.removal device) := hw.expected t _ htxn
    have hheld : RemovalHeld w.server t device revoked .done := hs.held t _ htxn
    obtain ⟨rowc, hrowc, _⟩ := hw.signedIn
    refine hw.signedIn.same hl fun k hk => SameRow.of_get ?_
    have hnot : k ∉ revoked := by
      intro hmem
      obtain ⟨_, rowk, hrowk, _, hdevice⟩ := hheld.held k (Or.inl hmem)
      have hsame := hl.sameDevice w.stored k rowc rowk hrowc hrowk hk.symm
      exact hexpected rowc hrowc (hsame.trans hdevice)
    rw [hdb, Db.get_revokeAll]
    cases w.server.db.sessions.get k <;> simp [hnot]
  | pruned ids cutoff hdb _ =>
    exact hw.signedIn.same hl fun k hk => sameRow_of_pruned hw hok hdb hk

/-- What a transaction of before the step is about stays expected. -/
theorem Expected.act (hw : w.Sound) {l : Label} (hact : act cfg w.server l = some (s', answer))
    {t : TxnId} {txn : Txn} (htxn : w.server.txns t = some txn) :
    Expected { w with server := s' } txn.subject := by
  have hs := hw.server
  have hk := kept_act hs hact
  have hexpected := hw.expected t txn htxn
  have hlt : ∀ id, (txn.subject = .refresh id → id < w.server.db.nextSession) ∧
      ∀ logout, txn.subject = .request id logout → id < w.server.db.nextSession := fun _ =>
    hs.subject_lt htxn
  obtain ⟨rowc, hrowc, _⟩ := hw.signedIn
  have hc : w.stored < w.server.db.nextSession := hs.lineages.bound _ rowc hrowc
  have hours : ∀ id, id < w.server.db.nextSession →
      World.ours { w with server := s' } id = true → w.ours id = true := by
    intro id hid hours
    have hroot := World.ours_iff.mp hours
    change s'.history.root id = s'.history.root w.stored at hroot
    rw [hk.frame.root id hid, hk.frame.root w.stored hc] at hroot
    exact World.ours_iff.mpr hroot
  generalize txn.subject = subject at hexpected hlt
  cases subject with
  | refresh id => exact fun h => hexpected (hours id ((hlt id).1 rfl) h)
  | request id logout => exact fun h => hexpected (hours id ((hlt id).2 logout rfl) h)
  | removal device =>
    intro row' hrow' hdevice
    obtain ⟨row, hrow, hrowdevice⟩ := (effect_act hs hact).device hs hc hrow' hdevice
    exact hexpected row hrow hrowdevice

theorem local_startRemoval {device : DeviceId} (hstep : s.startRemoval t device now = some s') :
    s'.db = s.db ∧ s'.history = s.history := by
  obtain ⟨_, hsome⟩ := Option.ite_none_right_eq_some.mp hstep
  obtain rfl := Option.some.inj hsome
  exact ⟨rfl, rfl⟩

/-- **A step of the server** keeps what holds of the client's world. -/
theorem World.Sound.act (hw : w.Sound) {l : Label} (hok : w.undisturbed l = true)
    (hact : act cfg w.server l = some (s', answer))
    (hfew : World.fewRetries { w with server := s' } = true) :
    World.Sound { w with server := s' } := by
  have hs := hw.server
  have hk := kept_act hs hact
  refine ⟨hk.sound hs, signedIn_act (w := w) hw hok hact hfew, fun id hsent => ?_, fun t txn htxn => ?_⟩
  · refine (hw.spent id hsent).imp_right fun ⟨hlt, hdead⟩ => ?_
    refine ⟨Nat.lt_of_lt_of_le hlt hk.frame.nextSession, Bool.eq_false_iff.mpr fun hlive => ?_⟩
    rw [hk.frame.live id hlt hlive] at hdead
    cases hdead
  · by_cases howner : l.owner = some t
    · have hbegun := begun_of_act hact howner htxn
      generalize hsubject : txn.subject = subject at hbegun
      cases hbegun with
      | before _ txn₀ htxn₀ => exact Expected.act hw hact htxn₀
      | refresh id =>
        obtain ⟨_, hsome⟩ := Option.ite_none_right_eq_some.mp hact
        obtain rfl := (congrArg Prod.fst (Option.some.inj hsome)).symm
        intro hours
        have hours' : w.ours id = true := by
          rw [World.ours_iff] at hours ⊢
          rwa [show _ = w.server.history from Local.startRefresh.history] at hours
        simpa [World.undisturbed, hours'] using hok
      | request id logout active =>
        obtain ⟨_, hsome⟩ := Option.ite_none_right_eq_some.mp hact
        obtain rfl := (congrArg Prod.fst (Option.some.inj hsome)).symm
        intro hours
        have hours' : w.ours id = true := by
          rw [World.ours_iff] at hours ⊢
          rwa [show _ = w.server.history from (Local.startRequest logout active).history] at hours
        have hall : (w.sentRequest id = true ∧ logout = false) ∧ active = true := by
          simpa [World.undisturbed, hours'] using hok
        exact hall.1
      | removal device now _ =>
        obtain ⟨_, hsome⟩ := Option.ite_none_right_eq_some.mp hact
        obtain ⟨s₁, hstep, heq⟩ := Option.map_eq_some_iff.mp hsome
        obtain ⟨rfl, _⟩ := Prod.mk.inj heq
        intro row hrow
        change s₁.db.sessions.get w.stored = some row at hrow
        rw [(local_startRemoval hstep).1] at hrow
        simpa [World.undisturbed, hrow] using hok
    · have hne : some t ≠ l.owner := Ne.symm howner
      exact Expected.act hw hact ((hk.frame.txns t hne).symm.trans htxn)

/-- **A reply** to a refresh of the stored token, if few rotations of that are newer, brings a
session that is live. -/
theorem World.Sound.receive (hw : w.Sound)
    (hfrom : w.server.history.rotatedFrom id = some w.stored)
    (hfew : World.fewRetries { w with stored := id } = true) :
    World.Sound { w with stored := id } := by
  have hs := hw.server
  have hl := hs.lineages
  have hroot := (hl.child id w.stored hfrom).2
  have hdead := hl.childless id w.stored hfrom
  obtain ⟨row, hrow, hcase⟩ := hw.signedIn
  rcases hcase with hlive | ⟨hrotated, _, next, row', hnext, hrow', hliven, hunused⟩
  · rw [Db.live_iff.mpr ⟨row, hrow, hlive⟩] at hdead
    cases hdead
  · obtain ⟨hsiblings, _, hchildren⟩ :=
      hl.newest w.stored row next row' hrow hrotated hnext hrow' hliven hunused
    have hlt : id < w.server.db.nextSession := hl.lt_of_child hfrom
    have hnewer : ((children w.server.db w.server.history.rotatedFrom w.stored).filter
        (id < ·)).length ≤ 15 := by
      simpa [World.fewRetries, hchildren id hfrom, hfrom] using hfew
    have hkept := mem_newest (List.pairwise_lt_range.filter _) (mem_children.mpr ⟨hlt, hfrom⟩) hnewer
    have hmem : id ∈ siblings w.server.db w.server.history.root
        (w.server.history.root w.stored) := hsiblings ▸ hkept
    obtain ⟨rowid, hrowid, hliveid⟩ := Db.live_iff.mp (mem_siblings.mp hmem).2.1
    refine ⟨hs, ⟨rowid, hrowid, Or.inl hliveid⟩, fun id' hsent => ?_, fun t txn htxn => ?_⟩
    · -- The token the reply is to is spent now.
      rcases hw.spent id' hsent with rfl | h
      · exact Or.inr ⟨hl.bound _ row hrow, hdead⟩
      · exact Or.inr h
    · have hexpected := hw.expected t txn htxn
      have hours : ∀ k, World.ours { w with stored := id } k = true → w.ours k = true :=
        fun k hk => World.ours_iff.mpr ((World.ours_iff.mp hk).trans hroot)
      generalize txn.subject = subject at hexpected
      cases subject with
      | refresh k => exact fun hk => hexpected (hours k hk)
      | request k logout => exact fun hk => hexpected (hours k hk)
      | removal device =>
        intro rowid' hrowid' hdevice
        have hsame := hl.sameDevice w.stored id row rowid' hrow hrowid' hroot.symm
        exact hexpected row hrow (hsame.trans hdevice)

/-- What has been sent stays sent. -/
theorem Expected.sent {subject : Subject} {sentRefresh sentRequest : SessionId → Bool}
    (hexpected : Expected w subject)
    (hrefresh : ∀ id, w.sentRefresh id = true → sentRefresh id = true)
    (hrequest : ∀ id, w.sentRequest id = true → sentRequest id = true) :
    Expected { w with sentRefresh, sentRequest } subject := by
  cases subject with
  | refresh id => exact fun hours => hrefresh id (hexpected hours)
  | request id logout => exact fun hours => (hexpected hours).imp_left (hrequest id)
  | removal device => exact hexpected

theorem World.Sound.step (hw : w.Sound) {e : Event} (hok : w.honest cfg e = true)
    (hstep : w.step cfg e = some w') : w'.Sound := by
  have hfew : World.fewRetries w' = true := by
    unfold World.honest at hok
    rw [hstep, Option.all_some, Bool.and_eq_true] at hok
    exact hok.2
  cases e with
  | sendRefresh =>
    obtain rfl := Option.some.inj hstep
    refine ⟨hw.server, hw.signedIn, fun id hsent => ?_, fun t txn htxn => ?_⟩
    · by_cases heq : id = w.stored
      · exact Or.inl heq
      · exact hw.spent id (hsent.imp_left fun h => (Function.update_of_ne heq _ _).symm.trans h)
    · refine (hw.expected t txn htxn).sent (fun id h => ?_) fun _ h => h
      by_cases heq : id = w.stored
      · exact heq ▸ Function.update_self ..
      · exact (Function.update_of_ne heq _ _).trans h
  | sendRequest =>
    obtain rfl := Option.some.inj hstep
    refine ⟨hw.server, hw.signedIn, fun id hsent => ?_, fun t txn htxn => ?_⟩
    · by_cases heq : id = w.stored
      · exact Or.inl heq
      · exact hw.spent id (hsent.imp_right fun h => (Function.update_of_ne heq _ _).symm.trans h)
    · refine (hw.expected t txn htxn).sent (fun _ h => h) fun id h => ?_
      by_cases heq : id = w.stored
      · exact heq ▸ Function.update_self ..
      · exact (Function.update_of_ne heq _ _).trans h
  | server l =>
    obtain ⟨s', hserver, rfl⟩ := Option.map_eq_some_iff.mp hstep
    obtain ⟨⟨s', answer⟩, hact, rfl⟩ := Option.map_eq_some_iff.mp hserver
    unfold World.honest at hok
    rw [Bool.and_eq_true] at hok
    exact hw.act hok.1 hact hfew
  | receive id =>
    obtain ⟨hfrom, hsome⟩ := Option.ite_none_right_eq_some.mp hstep
    obtain rfl := Option.some.inj hsome
    exact hw.receive hfrom hfew

/-- A login's first reply. -/
theorem World.Sound.start (hs : Auth.Sound s) {device : DeviceId} {replaced : List DeviceId}
    (hlogin : s.login cfg device replaced now = some s') :
    (World.start s' s.db.nextSession).Sound := by
  have hk := kept_login hs hlogin
  have haccount := accounts_of_login hlogin
  obtain ⟨_, hsome⟩ := Option.ite_none_right_eq_some.mp hlogin
  have hself : s'.history.root s.db.nextSession = s.db.nextSession := by
    obtain rfl := Option.some.inj hsome
    exact Function.update_self ..
  have hrow : s'.db.sessions.get s.db.nextSession = some
      (.insert device.userId (some device) (now + cfg.authRefreshTokenTtl) now) := by
    obtain rfl := Option.some.inj hsome
    show ((s.db.forgetDevices replaced).login cfg device now).sessions.get s.db.nextSession = _
    rw [Db.login, Db.get_insertSession]
    exact if_pos rfl
  refine ⟨hk.sound hs, ⟨_, hrow, Or.inl rfl⟩, fun id hsent => ?_, fun t txn htxn => ?_⟩
  · rcases hsent with h | h <;> cases h
  · -- What is under way is about older logins, and about other students' devices.
    have htxn₀ : s.txns t = some txn := (hk.frame.txns t (Option.some_ne_none t)).symm.trans htxn
    have hold : ∀ id, id < s.db.nextSession →
        (World.start s' s.db.nextSession).ours id ≠ true := by
      intro id hid hours
      have hroot := World.ours_iff.mp hours
      change s'.history.root id = s'.history.root s.db.nextSession at hroot
      rw [hk.frame.root id hid, hself] at hroot
      exact absurd hid (Nat.not_lt.mpr (hroot ▸ hs.lineages.root_le id))
    have hlt : ∀ id, (txn.subject = .refresh id → id < s.db.nextSession) ∧
        ∀ logout, txn.subject = .request id logout → id < s.db.nextSession := fun _ =>
      hs.subject_lt htxn₀
    have hheld := hs.held t txn htxn₀
    cases txn with
    | refresh c => exact fun h => absurd h (hold c.id ((hlt c.id).1 rfl))
    | lockSelf id logout => exact fun h => absurd h (hold id ((hlt id).2 logout rfl))
    | claimContest c logout => exact fun h => absurd h (hold c.id ((hlt c.id).2 logout rfl))
    | logout id => exact fun h => absurd h (hold id ((hlt id).2 true rfl))
    | removal device' _ revoked pass =>
      intro row hrow' hdevice
      obtain rfl := Option.some.inj (hrow.symm.trans hrow')
      obtain rfl := Option.some.inj hdevice
      rw [RemovalHeld.account hheld] at haccount
      cases haccount

/-! ### The answers -/

/-- A session that is refused as revoked has been rotated. -/
theorem SignedIn.rotated (hin : SignedIn s c) (hl : Lineages s.db s.history) {row : AuthSession}
    (hrow : s.db.sessions.get c = some row) (hrevoked : row.revokedAt ≠ none) :
    ∃ newId, s.history.rotatedFrom newId = some c := by
  obtain ⟨row₀, hrow₀, hcase⟩ := hin
  obtain rfl := Option.some.inj (hrow.symm.trans hrow₀)
  rcases hcase with hlive | ⟨hrotated, _, next, _, hnext, _⟩
  · exact absurd hlive hrevoked
  · exact ⟨next, hl.rotated c row next hrow hrotated hnext⟩

theorem recordFirstUse_error {db db' : Db} {row : AuthSession} {detail : Detail}
    (h : db.recordFirstUse id row now = (db', .error detail)) : row.revokedAt ≠ none := by
  unfold Db.recordFirstUse at h
  split at h
  next hrevoked => exact hrevoked
  next => cases h

theorem handOn_not_refused {logout : Bool} {detail : Detail} :
    (s.handOn t id logout).2 ≠ some (.refused detail) := by
  unfold State.handOn
  split <;> exact nofun

theorem refused_startRequest {logout active : Bool} {row : AuthSession} {detail : Detail}
    (hrow : s.db.sessions.get id = some row) (hactive : active = true)
    (h : s.startRequest t id logout active = (s', some (.refused detail))) :
    row.revokedAt ≠ none := by
  unfold State.startRequest at h
  rw [hrow] at h
  dsimp only at h
  split at h
  next hrefused =>
    rcases hrefused with hrevoked | hinactive
    · exact hrevoked
    · rw [hactive] at hinactive
      cases hinactive
  next =>
    split at h
    next => split at h <;> cases h
    next => split at h <;> cases h

theorem refused_lockSelf {logout : Bool} {row : AuthSession} {detail : Detail}
    (hrow : s.db.sessions.get id = some row)
    (h : s.lockSelf t id logout now = some (s', some (.refused detail))) :
    row.revokedAt ≠ none := by
  unfold State.lockSelf at h
  rw [hrow] at h
  dsimp only at h
  split at h
  next => cases h
  next =>
    split at h
    next => cases h
    next =>
      split at h
      next herror => exact recordFirstUse_error herror
      next => exact absurd (congrArg Prod.snd (Option.some.inj h)) handOn_not_refused

theorem refused_finishClaim {ct : Contest} {logout : Bool} {row : AuthSession} {detail : Detail}
    (hrow : s.db.sessions.get ct.id = some row)
    (h : s.finishClaim t ct logout now = some (s', some (.refused detail))) :
    row.revokedAt ≠ none := by
  unfold State.finishClaim at h
  rw [hrow] at h
  dsimp only at h
  split at h
  next =>
    split at h
    next herror => exact recordFirstUse_error herror
    next => exact absurd (congrArg Prod.snd (Option.some.inj h)) handOn_not_refused
  next => cases h

theorem logout_not_refused :
    s.logout t id now ≠ some (s', some (.refused .sessionRevoked)) := by
  unfold State.logout
  split
  · exact nofun
  · split <;> exact nofun

/-- **An honest client stays signed in.** After any run of the server, a client signs in and is
the only holder of its login, on a network that loses, delays, repeats and reorders what it
carries. As long as its events are honest, a refresh with its stored refresh token that is
answered is answered with a new session; and where a request with its stored access token is
answered as revoked, the server has rotated the stored pair's own refresh token. -/
theorem honest_client_stays_signed_in {ls : List Label} {device : DeviceId}
    {replaced : List DeviceId} {es : List Event}
    (hrun : FreeRun (step cfg) State.initial ls s)
    (hlogin : step cfg s (.login device replaced now) = some s')
    (hclient : Run (World.step cfg) (fun w e => w.honest cfg e = true)
      (World.start s' s.db.nextSession) es w) :
    ∀ l s'' answer, w.honest cfg (.server l) = true →
      act cfg w.server l = some (s'', some answer) →
      (w.server.about l = some (.refresh w.stored) →
        ∃ newId, answer = .refreshed (.ok newId)) ∧
      (∀ logout, w.server.about l = some (.request w.stored logout) →
        answer = .refused .sessionRevoked →
        ∃ newId, w.server.history.rotatedFrom newId = some w.stored) := by
  have hw : w.Sound := by
    obtain ⟨⟨_, _⟩, hact, rfl⟩ := Option.map_eq_some_iff.mp hlogin
    obtain ⟨_, hlogin', heq⟩ := Option.map_eq_some_iff.mp hact
    obtain ⟨rfl, _⟩ := Prod.mk.inj heq
    exact hclient.invariant World.Sound (World.Sound.start (Sound.run hrun) hlogin')
      fun _ _ _ hw hok hstep => hw.step hok hstep
  have hl := hw.server.lineages
  intro l s'' answer hhonest hact
  have hok : w.undisturbed l = true := by
    unfold World.honest at hhonest
    rw [Bool.and_eq_true] at hhonest
    exact hhonest.1
  have hours : w.ours w.stored = true := World.ours_iff.mpr rfl
  obtain ⟨rowc, hrowc, _⟩ := hw.signedIn
  constructor
  · intro habout
    cases l with
    | refresh t id =>
      -- The stored session's row is there, so the request goes on.
      obtain rfl := Subject.refresh.inj (Option.some.inj habout)
      obtain ⟨_, hsome⟩ := Option.ite_none_right_eq_some.mp hact
      simp [State.startRefresh, hrowc] at hsome
    | finishRefresh t active now =>
      simp only [act] at hact
      split at hact
      next ct htxn =>
        have hid : ct.id = w.stored := by simpa [State.about, htxn, Txn.subject] using habout
        obtain ⟨_, _, hanswer⟩ := finishRefresh_eq hact
        rw [Option.some.inj hanswer]
        simp only [World.undisturbed, htxn, hid, hours, hrowc, Option.all_some, Bool.not_true,
          Bool.false_or, Bool.and_eq_true, decide_eq_true_eq] at hok
        obtain ⟨rfl, hvalid⟩ := hok
        rw [hid]
        obtain ⟨newId, hresult⟩ := refresh_ok hw.signedIn cfg fun row hrow =>
          Option.some.inj (hrowc.symm.trans hrow) ▸ hvalid
        exact ⟨newId, by rw [hresult]⟩
      next => cases hact
    | lockSelf t now =>
      simp only [act] at hact
      split at hact
      next htxn => simp [State.about, htxn, Txn.subject] at habout
      next => cases hact
    | finishClaim t now =>
      simp only [act] at hact
      split at hact
      next htxn => simp [State.about, htxn, Txn.subject] at habout
      next => cases hact
    | logout t now =>
      simp only [act] at hact
      split at hact
      next htxn => simp [State.about, htxn, Txn.subject] at habout
      next => cases hact
    | _ => simp [State.about] at habout
  · intro logout habout hrefused
    have hrotated : rowc.revokedAt ≠ none →
        ∃ newId, w.server.history.rotatedFrom newId = some w.stored := fun hrevoked =>
      hw.signedIn.rotated hl hrowc hrevoked
    subst hrefused
    cases l with
    | request t id logout' active =>
      obtain ⟨rfl, rfl⟩ := Subject.request.inj (Option.some.inj habout)
      obtain ⟨_, hsome⟩ := Option.ite_none_right_eq_some.mp hact
      refine hrotated (refused_startRequest hrowc ?_ (Option.some.inj hsome))
      simp only [World.undisturbed, hours, Bool.not_true, Bool.false_or, Bool.and_eq_true] at hok
      exact hok.2
    | lockSelf t now =>
      simp only [act] at hact
      split at hact
      next id logout' htxn =>
        obtain ⟨rfl, rfl⟩ : id = w.stored ∧ logout' = logout := by
          simpa [State.about, htxn, Txn.subject] using habout
        exact hrotated (refused_lockSelf hrowc hact)
      next => cases hact
    | finishClaim t now =>
      simp only [act] at hact
      split at hact
      next ct logout' htxn =>
        obtain ⟨hid, rfl⟩ : ct.id = w.stored ∧ logout' = logout := by
          simpa [State.about, htxn, Txn.subject] using habout
        exact hrotated (refused_finishClaim (hid ▸ hrowc) hact)
      next => cases hact
    | finishRefresh t active now =>
      simp only [act] at hact
      split at hact
      next htxn => simp [State.about, htxn, Txn.subject] at habout
      next => cases hact
    | logout t now =>
      simp only [act] at hact
      split at hact
      next id htxn => exact absurd hact (logout_not_refused)
      next => cases hact
    | _ => simp [State.about] at habout

/-- The client's first login. -/
def firstLogin : Label := .login ⟨1, 1⟩ [] 0

def State.afterLogin : State := (step ⟨1000, 10⟩ State.initial firstLogin).getD State.initial

/-- Its refresh token is rotated, of which it does not hear, and a repetition of the refresh is
about to be answered. -/
def repeatedRefresh : List Event :=
  [.sendRefresh, .server (.refresh 1 1), .server (.lockMissing 1), .server (.lockNext 1),
    .server (.finishRefresh 1 true 1), .server (.refresh 2 1), .server (.lockMissing 2),
    .server (.lockNext 2), .server (.lockNext 2)]

theorem honest_client_stays_signed_in_of_repeated_refresh :
    ∃ w, step ⟨1000, 10⟩ State.initial firstLogin = some State.afterLogin ∧
      Run (World.step ⟨1000, 10⟩) (fun w e => w.honest ⟨1000, 10⟩ e = true)
        (World.start State.afterLogin 1) repeatedRefresh w ∧
      ∃ s' newId, act ⟨1000, 10⟩ w.server (.finishRefresh 2 true 2) =
        some (s', some (.refreshed (.ok newId))) := by
  have hclient : Run (World.step ⟨1000, 10⟩) (fun w e => w.honest ⟨1000, 10⟩ e = true)
      (World.start State.afterLogin 1) repeatedRefresh _ := run_of_execWhere rfl
  have hlogin : step ⟨1000, 10⟩ State.initial firstLogin = some State.afterLogin := rfl
  obtain ⟨newId, hanswer⟩ := (honest_client_stays_signed_in Run.nil hlogin hclient
    (.finishRefresh 2 true 2) _ _ rfl rfl).1 rfl
  exact ⟨_, hlogin, hclient, _, newId, congrArg (fun a => some (_, some a)) hanswer⟩

/-- The reply to a refresh is on its way when the client uses the access token it has. -/
theorem stored_access_token_is_revoked :
    ∃ w s', step ⟨1000, 10⟩ State.initial firstLogin = some State.afterLogin ∧
      Run (World.step ⟨1000, 10⟩) (fun w e => w.honest ⟨1000, 10⟩ e = true)
        (World.start State.afterLogin 1) [.sendRefresh, .server (.refresh 1 1),
          .server (.lockMissing 1), .server (.lockNext 1),
          .server (.finishRefresh 1 true 1), .sendRequest] w ∧
      w.honest ⟨1000, 10⟩ (.server (.request 2 1 false true)) = true ∧
      w.server.about (.request 2 1 false true) = some (.request w.stored false) ∧
      act ⟨1000, 10⟩ w.server (.request 2 1 false true) =
        some (s', some (.refused .sessionRevoked)) :=
  ⟨_, _, rfl, run_of_execWhere rfl, rfl, rfl, rfl⟩

end TigerDuck.Auth
