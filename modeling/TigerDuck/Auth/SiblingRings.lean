import TigerDuck.Auth.Effects

/-!
# Sibling rings

A live session that points at another is in a ring: of live sessions that nothing has used, which
one token was rotated into, each pointing at the next newer and the newest at the oldest, while
that token points at the newest (`SiblingRing`).

`Lineages` has the ring. That one token was rotated into all of it, and still points at the newest,
is what the steps keep here (`Rooted`): a step leaves the sessions and the token of a ring as they
are, or ends the ring, or is another rotation of its token.
-/

namespace TigerDuck.Auth

open Relational Transition

variable {db : Db} {h : History} {s s' : State} {t : TxnId} {id x y k : SessionId} {now : Time}
  {cfg : Settings} {answer : Option Answer} {owner : Option TxnId}

/-- A ring of sessions one token was rotated into, oldest first. -/
structure SiblingRing (db : Db) (h : History) (token : SessionId) (ids : List SessionId) : Prop where
  live : ∀ x ∈ ids, db.live x = true
  unused : ∀ x ∈ ids, db.isUsed x = false
  rotated : ∀ x ∈ ids, h.rotatedFrom x = some token
  ascending : ids.Pairwise (· < ·)
  ring : IsRing db.next ids
  /-- The token, unless its row has been pruned, points at the newest. -/
  newest : ∀ row, db.sessions.get token = some row → row.replacedBySessionId = ids.getLast?
  length_le : ids.length ≤ UNUSED_SESSIONS_KEPT
  /-- `_linked_ids` of any of them is all of them. -/
  linked : ∀ x ∈ ids, (db.linkedIds x).Perm ids

/-- One token was rotated into the sessions, and points at the newest of them. -/
def OneToken (db : Db) (h : History) (ids : List SessionId) : Prop :=
  ∃ token, (∀ x ∈ ids, h.rotatedFrom x = some token) ∧
    ∀ row, db.sessions.get token = some row → row.replacedBySessionId = ids.getLast?

/-- The live sessions of a lineage with a contest come from one token. -/
def Rooted (db : Db) (h : History) : Prop :=
  ∀ x, db.live x = true → db.next x ≠ none → OneToken db h (siblings db h.root (h.root x))

/-! ### The ring of a lineage -/

/-- The live sessions of a lineage with a contest are a ring. -/
theorem Lineages.siblingRing (hl : Lineages db h) (hr : Rooted db h) (hlive : db.live x = true)
    (hnext : db.next x ≠ none) :
    ∃ token, SiblingRing db h token (siblings db h.root (h.root x)) := by
  obtain ⟨y, hy⟩ := Option.ne_none_iff_exists'.mp hnext
  obtain ⟨⟨_, hunused, hring⟩, _⟩ := hl.ring_of_next hlive hy
  obtain ⟨token, hrotated, hnewest⟩ := hr x hlive hnext
  have hlives : ∀ z ∈ siblings db h.root (h.root x), db.live z = true := fun z hz =>
    (mem_siblings.mp hz).2.1
  refine ⟨token, hlives, hunused, hrotated, siblings_sorted _ _, hring.congr ?_, hnewest,
    hl.length_siblings_le _, ?_⟩
  · -- A rival is what the column of a live session names.
    intro z hz
    obtain ⟨next, hrival⟩ := Option.ne_none_iff_exists'.mp (hring.next_ne_none hz)
    obtain ⟨row, hrow, hrevoked⟩ := Db.live_iff.mp (hlives z hz)
    have hpoints : db.pointee row = some next := by simpa [Db.rival, hrow, hrevoked] using hrival
    rw [hrival, Db.next, hrow]
    exact (Option.filter_eq_some_iff.mp hpoints).1
  · intro z hz
    have hroot : h.root z = h.root x := (mem_siblings.mp hz).2.2
    refine (List.perm_ext_iff_of_nodup (linkedIds_nodup z) (siblings_nodup _ _)).mpr fun w => ?_
    rw [hl.mem_linkedIds_of_live (hlives z hz), hroot]

/-! ### Steps that leave a ring alone -/

/-- A token that names a session that is still live goes on naming it. -/
def KeepsTokens (s s' : State) (x : SessionId) : Prop :=
  ∀ k row', k < s.db.nextSession → s.db.live k = false → s.history.root k = s.history.root x →
    s'.db.sessions.get k = some row' → ∃ row, s.db.sessions.get k = some row ∧
      ∀ next, row.replacedBySessionId = some next → s'.db.live next = true →
        row'.replacedBySessionId = some next

/-- What a step leaves of the lineage of a session. -/
structure LeavesRing (s s' : State) (x : SessionId) : Prop where
  live : s.db.live x = true
  next : s.db.next x ≠ none
  others : ∀ y, s.db.live y = true → s.history.root y = s.history.root x → s'.db.live y = true
  token : KeepsTokens s s' x

theorem LeavesRing.oneToken (hkeep : LeavesRing s s' x) (hr : Rooted s.db s.history)
    (hs : Sound s) (hk : Kept s s' owner)
    (hborn : ∀ y, s.db.nextSession ≤ y → s'.db.live y = true →
      s'.history.root y ≠ s'.history.root x) :
    OneToken s'.db s'.history (siblings s'.db s'.history.root (s'.history.root x)) := by
  have hlt : ∀ y, s.db.live y = true → y < s.db.nextSession := fun y hy => by
    obtain ⟨row, hrow, _⟩ := Db.live_iff.mp hy
    exact hs.lineages.bound y row hrow
  have hroot : s'.history.root x = s.history.root x := hk.frame.root x (hlt x hkeep.live)
  have hlive' : ∀ y, s'.db.live y = true → y < s'.db.nextSession := fun y hy => by
    obtain ⟨row, hrow, _⟩ := Db.live_iff.mp hy
    exact hk.lineages.bound y row hrow
  -- The lineage's live sessions are those it had.
  have hsame : siblings s'.db s'.history.root (s'.history.root x) =
      siblings s.db s.history.root (s.history.root x) := by
    refine eq_of_ascending (siblings_sorted _ _) (siblings_sorted _ _) fun y => ?_
    rw [mem_siblings, mem_siblings]
    constructor
    · rintro ⟨_, hlive, hy⟩
      have hold : y < s.db.nextSession := by
        by_contra hge
        exact hborn y (Nat.not_lt.mp hge) hlive hy
      rw [hk.frame.root y hold, hroot] at hy
      exact ⟨hold, hk.frame.live y hold hlive, hy⟩
    · rintro ⟨hold, hlive, hy⟩
      have hstays := hkeep.others y hlive hy
      refine ⟨hlive' y hstays, hstays, ?_⟩
      rw [hk.frame.root y hold, hroot, hy]
  obtain ⟨token, hrotated, hnewest⟩ := hr x hkeep.live hkeep.next
  rw [hsame]
  refine ⟨token, fun y hy => ?_, fun row' hrow' => ?_⟩
  · rw [hk.frame.rotatedFrom y (mem_siblings.mp hy).1]
    exact hrotated y hy
  · have hx := hrotated x (hs.lineages.mem_siblings_self hkeep.live)
    obtain ⟨row, hrow, hpoints⟩ := hkeep.token token row' (hs.lineages.lt_of_parent hx)
      (hs.lineages.childless x token hx)
      (hs.lineages.child x token hx).2.symm hrow'
    have hlast := hnewest row hrow
    cases hnew : (siblings s.db s.history.root (s.history.root x)).getLast? with
    | none =>
      rw [List.getLast?_eq_none_iff] at hnew
      have hmem := hs.lineages.mem_siblings_self hkeep.live
      rw [hnew] at hmem
      cases hmem
    | some newest =>
      obtain ⟨_, hlive, hy⟩ := mem_siblings.mp (List.mem_of_getLast? hnew)
      exact hpoints newest (hlast.trans hnew) (hkeep.others newest hlive hy)

/-- A quiet write leaves the ring of a session that stays live. -/
theorem LeavesRing.of_quiet (hq : Quiet s.history.root s.db s'.db) (hlive : s'.db.live x = true)
    (hnext : s'.db.next x ≠ none)
    (htokens : KeepsTokens s s' x) : LeavesRing s s' x := by
  rcases hq.lineage (s.history.root x) with hend | hkeep
  · rw [hend x rfl] at hlive
    cases hlive
  · have hbefore := hq.live hlive
    refine ⟨hbefore, ?_, fun y hy hroot => ?_, htokens⟩
    · obtain ⟨row, hrow, hrevoked⟩ := Db.live_iff.mp hbefore
      obtain ⟨row', hrow', _, hsame⟩ := hkeep x row rfl hrow hrevoked
      rw [Db.next, hrow', Option.bind_some, hsame] at hnext
      rwa [Db.next, hrow]
    · obtain ⟨row, hrow, hrevoked⟩ := Db.live_iff.mp hy
      obtain ⟨row', hrow', hrevoked', _⟩ := hkeep y row hroot hrow hrevoked
      exact Db.live_iff.mpr ⟨row', hrow', hrevoked'⟩

/-! ### What the rows point at -/

/-- A write that leaves every row what it points at. -/
def KeepsLinks (db db' : Db) : Prop := ∀ k row', db'.sessions.get k = some row' →
  ∃ row, db.sessions.get k = some row ∧ row'.replacedBySessionId = row.replacedBySessionId

theorem KeepsLinks.refl (db : Db) : KeepsLinks db db := fun _ row hrow => ⟨row, hrow, rfl⟩

theorem keepsLinks_updateSession {f : AuthSession → AuthSession}
    (hf : ∀ row, (f row).replacedBySessionId = row.replacedBySessionId) :
    KeepsLinks db (db.updateSession id f) := by
  intro k row' hrow'
  rw [Db.get_updateSession, Option.map_eq_some_iff] at hrow'
  obtain ⟨row, hrow, rfl⟩ := hrow'
  refine ⟨row, hrow, ?_⟩
  split
  · exact hf row
  · rfl

theorem keepsLinks_revokeAll (ids : List SessionId) (now : Time) :
    KeepsLinks db (db.revokeAll ids now) := by
  intro k row' hrow'
  rw [Db.get_revokeAll, Option.map_eq_some_iff] at hrow'
  obtain ⟨row, hrow, rfl⟩ := hrow'
  refine ⟨row, hrow, ?_⟩
  split <;> rfl

theorem handleRevokedReuse_links (cfg : Settings) (row : AuthSession) (revokedAt : Time) :
    (∃ newId, (db.handleRevokedReuse cfg id row revokedAt now).2 = .ok newId) ∨
      KeepsLinks db (db.handleRevokedReuse cfg id row revokedAt now).1 := by
  have hrefused : KeepsLinks db
      (if now < revokedAt + cfg.authRefreshReuseGrace then
        (db, (.error .sessionRevoked : Except Detail SessionId))
        else (db.updateSession id (·.markReuse now), .error .sessionRevoked)).1 := by
    split
    · exact KeepsLinks.refl db
    · exact keepsLinks_updateSession fun _ => rfl
  unfold Db.handleRevokedReuse
  split
  · exact Or.inr (KeepsLinks.refl db)
  dsimp only
  split
  · exact Or.inr hrefused
  next =>
    split
    · split
      · exact Or.inr (KeepsLinks.refl db)
      · exact Or.inl ⟨_, rfl⟩
    · exact Or.inr hrefused

/-- A refresh that is refused leaves every row what it points at. -/
theorem refresh_links (cfg : Settings) (active : Bool) :
    (∃ newId, (db.refresh cfg id active now).2 = .ok newId) ∨
      KeepsLinks db (db.refresh cfg id active now).1 := by
  unfold Db.refresh
  split
  · exact Or.inr (KeepsLinks.refl db)
  next row _ =>
    split
    · exact Or.inr (KeepsLinks.refl db)
    · split
      · exact handleRevokedReuse_links cfg row _
      · split
        · split
          -- An expired session without a rival is revoked.
          · exact Or.inr (keepsLinks_updateSession fun _ => rfl)
          · exact Or.inr (KeepsLinks.refl db)
        · exact Or.inl ⟨_, rfl⟩

/-! ### The steps -/

theorem KeepsLinks.tokens (hlinks : KeepsLinks s.db s'.db) (x : SessionId) :
    KeepsTokens s s' x := by
  intro k row' _ _ _ hrow'
  obtain ⟨row, hrow, hsame⟩ := hlinks k row' hrow'
  exact ⟨row, hrow, fun next hnext _ => hsame.trans hnext⟩

/-- A prune unlinks only what it deletes. -/
theorem keepsTokens_prune {ids : List SessionId} {cutoff : Time}
    (hdb : s'.db = s.db.pruneExpired ids cutoff) (x : SessionId) : KeepsTokens s s' x := by
  intro k row' _ _ _ hrow'
  rw [hdb, Db.get_pruneExpired, Option.map_eq_some_iff] at hrow'
  obtain ⟨row, hrow, rfl⟩ := hrow'
  refine ⟨row, (Option.filter_eq_some_iff.mp hrow).1, fun next hnext hlive => ?_⟩
  show Option.filter _ row.replacedBySessionId = some next
  rw [hnext, Option.filter_some, if_pos]
  rw [Bool.not_eq_true', List.contains_eq_mem, decide_eq_false_iff_not]
  intro hgone
  -- A session that is live after the prune was not deleted.
  obtain ⟨⟨_, rown⟩, hselect, rfl⟩ := List.mem_map.mp hgone
  obtain ⟨hget, hpruned⟩ := (Table.mem_select_iff ..).mp hselect
  obtain ⟨rown', hrown', _⟩ := Db.live_iff.mp hlive
  rw [hdb, Db.get_pruneExpired, hget, Option.map_eq_some_iff] at hrown'
  obtain ⟨_, hfilter, _⟩ := hrown'
  simp [Option.filter, hpruned] at hfilter

/-- A quiet write leaves every ring whose token it leaves. -/
theorem Rooted.quiet (hr : Rooted s.db s.history) (hs : Sound s) (hk : Kept s s' owner)
    (hq : Quiet s.history.root s.db s'.db) (htokens : ∀ x, KeepsTokens s s' x) :
    Rooted s'.db s'.history := by
  intro x hlive hnext
  refine (LeavesRing.of_quiet hq hlive hnext (htokens x)).oneToken hr hs hk fun y hge hy => ?_
  obtain ⟨row, hrow, _⟩ := Db.live_iff.mp (hq.live hy)
  exact absurd (hs.lineages.bound y row hrow) (Nat.not_lt.mpr hge)

/-- A write to the sessions of one lineage, among them any that are new. -/
theorem Rooted.turnover (hr : Rooted s.db s.history) (ρ : SessionId) (hs : Sound s)
    (hk : Kept s s' owner)
    (hold : ∀ k, k < s.db.nextSession → s.history.root k ≠ ρ → ∀ row,
      s.db.sessions.get k = some row → ∃ row', s'.db.sessions.get k = some row' ∧
        row'.revokedAt = row.revokedAt ∧ row'.replacedBySessionId = row.replacedBySessionId)
    (hborn : ∀ k, s.db.nextSession ≤ k → s'.db.live k = true → s'.history.root k = ρ)
    (hthere : ∀ x, s'.db.live x = true → s'.history.root x = ρ → s'.db.next x ≠ none →
      OneToken s'.db s'.history (siblings s'.db s'.history.root ρ)) :
    Rooted s'.db s'.history := by
  intro x hlive hnext
  by_cases hroot' : s'.history.root x = ρ
  · rw [hroot']
    exact hthere x hlive hroot' hnext
  have hlt : x < s.db.nextSession := by
    by_contra hge
    exact hroot' (hborn x (Nat.not_lt.mp hge) hlive)
  have hroot : s.history.root x ≠ ρ := by rwa [← hk.frame.root x hlt]
  have hbefore := hk.frame.live x hlt hlive
  have hkeep : LeavesRing s s' x := by
    refine ⟨hbefore, ?_, fun y hy hsame => ?_, fun k row' hklt _ hsame hrow' => ?_⟩
    · obtain ⟨row, hrow, _⟩ := Db.live_iff.mp hbefore
      obtain ⟨row', hrow', _, hlink⟩ := hold x hlt hroot row hrow
      rw [Db.next, hrow', Option.bind_some, hlink] at hnext
      rwa [Db.next, hrow]
    · obtain ⟨row, hrow, hrevoked⟩ := Db.live_iff.mp hy
      obtain ⟨row', hrow', hstays, _⟩ :=
        hold y (hs.lineages.bound y row hrow) (hsame ▸ hroot) row hrow
      exact Db.live_iff.mpr ⟨row', hrow', hstays.trans hrevoked⟩
    · have hsome := hk.frame.gone k hklt (by rw [hrow', Option.isSome_some])
      obtain ⟨row, hrow⟩ := Option.isSome_iff_exists.mp hsome
      obtain ⟨row'', hrow'', _, hlink⟩ := hold k hklt (hsame ▸ hroot) row hrow
      obtain rfl := Option.some.inj (hrow'.symm.trans hrow'')
      exact ⟨row, hrow, fun next hnext _ => hlink.trans hnext⟩
  refine hkeep.oneToken hr hs hk fun y hge hy heq => ?_
  exact hroot' (heq ▸ hborn y hge hy)

/-- A row outside the lineage of a contest is not touched when the contest is settled. -/
theorem get_settled_elsewhere (hl : Lineages db h) {row : AuthSession}
    (hrow : db.sessions.get id = some row) (hrevoked : row.revokedAt = none) (now : Time)
    (hk : h.root k ≠ h.root id) : (db.settled id row now).sessions.get k = db.sessions.get k := by
  have hne : k ≠ id := fun heq => hk (congrArg h.root heq)
  have hmem : k ∉ siblings db h.root (h.root id) := fun hmem => hk (mem_siblings.mp hmem).2.2
  rw [get_settled hl hrow hrevoked, if_neg hne, if_neg hmem]

/-- A first use settles the contest of its lineage. -/
theorem rooted_use (hr : Rooted s.db s.history) (hs : Sound s) (hk : Kept s s' owner)
    {row : AuthSession} (hrow : s.db.sessions.get id = some row) (hrevoked : row.revokedAt = none)
    (hdb : s'.db = (s.db.settled id row now).updateSession id (·.use now)) :
    Rooted s'.db s'.history := by
  have hn : s'.db.nextSession = s.db.nextSession := hdb ▸ nextSession_settled row
  have hbound : ∀ k, s'.db.live k = true → k < s.db.nextSession := fun k hlive => by
    obtain ⟨row', hrow', _⟩ := Db.live_iff.mp hlive
    exact hn ▸ hk.lineages.bound k row' hrow'
  refine hr.turnover (s.history.root id) hs hk ?_ ?_ ?_
  · intro k _ hroot rowk hrowk
    have hne : k ≠ id := fun heq => hroot (congrArg s.history.root heq)
    refine ⟨rowk, ?_, rfl, rfl⟩
    rw [hdb, Db.get_updateSession, get_settled_elsewhere hs.lineages hrow hrevoked now hroot,
      hrowk, Option.map_some, if_neg hne]
  · intro k hge hlive
    exact absurd (hbound k hlive) (Nat.not_lt.mpr hge)
  · intro x hlive hroot hnext
    rw [hk.frame.root x (hbound x hlive)] at hroot
    obtain ⟨row', hrow', hrevoked'⟩ := Db.live_iff.mp hlive
    rw [Db.next, hrow', Option.bind_some] at hnext
    rw [hdb] at hrow'
    rcases row_of_use hs.lineages hrow hrevoked hrow' with
      ⟨-, rfl⟩ | ⟨-, rowx, -, ⟨-, -, -, rfl⟩ | ⟨rfl, hends⟩⟩
    · exact absurd rfl hnext
    · cases hrevoked'
    · exact absurd hrevoked' (hends hroot)

/-- A rotation of a live token settles its contest too, and the new session is alone. -/
theorem rooted_rotate (hr : Rooted s.db s.history) (hs : Sound s) (hk : Kept s s' owner)
    {row : AuthSession} (hrow : s.db.sessions.get id = some row) (hrevoked : row.revokedAt = none)
    (hdb : s'.db = (s.db.rotate cfg id row now).1)
    (hroots : s'.history.root = (s.history.rotate id s.db.nextSession).root) :
    Rooted s'.db s'.history := by
  have hl := hs.lineages
  have hsettled : s.db.settled id row now = if row.revokedAt = none ∧
      row.replacedBySessionId ≠ none then s.db.settleContest id now else s.db := by
    simp [Db.settled, hrevoked]
  have hget : ∀ k, s'.db.sessions.get k = _ := fun k => hdb ▸
    get_rotate (hl.bound id row hrow) cfg row now _ hsettled (nextSession_settled row) k
  have hn : s'.db.nextSession = s.db.nextSession + 1 := hdb ▸ nextSession_rotate cfg row now
  refine hr.turnover (s.history.root id) hs hk ?_ ?_ ?_
  · intro k hlt hroot rowk hrowk
    have hne : k ≠ id := fun heq => hroot (congrArg s.history.root heq)
    refine ⟨rowk, ?_, rfl, rfl⟩
    rw [hget, if_neg (Nat.ne_of_lt hlt), if_neg hne, get_settled_elsewhere hl hrow hrevoked now hroot,
      hrowk]
  · intro k hge hlive
    obtain ⟨row', hrow', _⟩ := Db.live_iff.mp hlive
    have hlt := hk.lineages.bound k row' hrow'
    rw [hn] at hlt
    obtain rfl : k = s.db.nextSession := Nat.le_antisymm (Nat.le_of_lt_succ hlt) hge
    rw [hroots, rotate_root, if_pos rfl]
  · intro x hlive hroot hnext
    obtain ⟨row', hrow', hrevoked'⟩ := Db.live_iff.mp hlive
    rw [Db.next, hrow', Option.bind_some] at hnext
    rw [hget] at hrow'
    by_cases hnew : x = s.db.nextSession
    · rw [if_pos hnew] at hrow'
      exact absurd (Option.some.inj hrow' ▸ rfl) hnext
    rw [if_neg hnew] at hrow'
    rw [hroots, rotate_root, if_neg hnew] at hroot
    by_cases hid : x = id
    · -- The rotated session is revoked.
      rw [if_pos hid, get_settled hl hrow hrevoked, if_pos rfl] at hrow'
      obtain rfl := Option.some.inj hrow'
      cases hrevoked'
    rw [if_neg hid, get_settled hl hrow hrevoked, if_neg hid] at hrow'
    by_cases hmem : x ∈ siblings s.db s.history.root (s.history.root id)
    · rw [if_pos hmem] at hrow'
      obtain ⟨rowx, _, rfl⟩ := Option.map_eq_some_iff.mp hrow'
      cases hrevoked'
    · rw [if_neg hmem] at hrow'
      exact absurd (mem_siblings.mpr ⟨hl.bound x row' hrow',
        Db.live_iff.mpr ⟨row', hrow', hrevoked'⟩, hroot⟩) hmem

/-- A token rotated again was rotated into all of its ring, and points at the newest. -/
theorem rooted_rotateAgain (hr : Rooted s.db s.history) (hs : Sound s) (hk : Kept s s' owner)
    {token successor : AuthSession} {successorId : SessionId}
    (hretry : Retry s.db s.history id token successorId successor)
    (hdb : s'.db = (s.db.rotateAgain cfg id token successorId successor now).1)
    (hroots : s'.history.root = (s.history.rotate id s.db.nextSession).root)
    (hfrom : s'.history.rotatedFrom = (s.history.rotate id s.db.nextSession).rotatedFrom) :
    Rooted s'.db s'.history := by
  have hget : ∀ k, s'.db.sessions.get k = _ := fun k => hdb ▸ hretry.get_rotateAgain cfg now k
  have hn : s'.db.nextSession = s.db.nextSession + 1 :=
    hdb ▸ Retry.nextSession_rotateAgain cfg now
  have hring : siblings s'.db s'.history.root (s.history.root id) =
      (Retry.ring s.db s.history id).drop (Retry.dropped s.db s.history id) ++
        [s.db.nextSession] := by
    rw [hdb, hroots]
    exact hretry.siblings_rotateAgain cfg now
  refine hr.turnover (s.history.root id) hs hk ?_ ?_ ?_
  · intro k hlt hroot rowk hrowk
    have hid : k ≠ id := fun heq => hroot (congrArg s.history.root heq)
    have hsuccessor : k ≠ successorId := fun heq => hroot (heq ▸ hretry.root_successor)
    have htake : k ∉ (Retry.ring s.db s.history id).take (Retry.dropped s.db s.history id) :=
      fun hmem => hroot (mem_siblings.mp (List.mem_of_mem_take hmem)).2.2
    refine ⟨rowk, ?_, rfl, rfl⟩
    rw [hget, rowsWith, if_neg (Nat.ne_of_lt hlt), if_neg hid, if_neg hsuccessor, if_neg htake, hrowk]
  · intro k hge hlive
    obtain ⟨row', hrow', _⟩ := Db.live_iff.mp hlive
    have hlt := hk.lineages.bound k row' hrow'
    rw [hn] at hlt
    obtain rfl : k = s.db.nextSession := Nat.le_antisymm (Nat.le_of_lt_succ hlt) hge
    rw [hroots, rotate_root, if_pos rfl]
  · intro x _ _ _
    rw [hring]
    refine ⟨id, fun y hy => ?_, fun row' hrow' => ?_⟩
    · rw [hfrom, rotate_rotatedFrom]
      rcases List.mem_append.mp hy with hy | hy
      · have hmem : y ∈ Retry.ring s.db s.history id := List.mem_of_mem_drop hy
        rw [if_neg (Nat.ne_of_lt (mem_siblings.mp hmem).1)]
        rw [hretry.newest_eq] at hmem
        exact (mem_children.mp (List.mem_of_mem_drop hmem)).2
      · rw [if_pos (List.mem_singleton.mp hy)]
    · rw [hget, rowsWith, if_neg (Nat.ne_of_lt hretry.token_lt), if_pos rfl] at hrow'
      rw [← Option.some.inj hrow', List.getLast?_concat]
      rfl

/-- A sign-in begins a lineage of its own. -/
theorem rooted_login (hr : Rooted s.db s.history) (hs : Sound s) (hk : Kept s s' owner)
    {device : DeviceId} {replaced : List DeviceId}
    (hdb : s'.db = (s.db.forgetDevices replaced).login cfg device now)
    (hroots : s'.history.root = (s.history.login s.db.nextSession device).root) :
    Rooted s'.db s'.history := by
  have hget : ∀ k, s'.db.sessions.get k = if k = s.db.nextSession then _ else _ := fun k => by
    rw [hdb]
    exact Db.get_insertSession ..
  have hn : s'.db.nextSession = s.db.nextSession + 1 := hdb ▸ rfl
  have hnew : ∀ k, s'.history.root k =
      if k = s.db.nextSession then s.db.nextSession else s.history.root k := fun k => by
    rw [hroots]
    exact Function.update_apply ..
  have hborn : ∀ k, s.db.nextSession ≤ k → s'.db.live k = true → k = s.db.nextSession := by
    intro k hge hlive
    obtain ⟨row', hrow', _⟩ := Db.live_iff.mp hlive
    have hlt := hk.lineages.bound k row' hrow'
    rw [hn] at hlt
    exact Nat.le_antisymm (Nat.le_of_lt_succ hlt) hge
  refine hr.turnover s.db.nextSession hs hk ?_ ?_ ?_
  · intro k hlt _ rowk hrowk
    rw [hget, if_neg (Nat.ne_of_lt hlt), Db.get_forgetDevices, hrowk]
    exact ⟨_, rfl, rfl, rfl⟩
  · intro k hge hlive
    rw [hnew, if_pos (hborn k hge hlive)]
  · intro x hlive hroot hnext
    -- The roots of the other sessions are as old as they are.
    have hx : x = s.db.nextSession := by
      by_contra hne
      rw [hnew, if_neg hne] at hroot
      have hle := hs.lineages.root_le x
      rw [hroot] at hle
      exact hne (hborn x hle hlive)
    rw [Db.next, hget, if_pos hx] at hnext
    exact absurd rfl hnext

/-- **Every step** keeps the rings rooted. -/
theorem rooted_act {l : Label} (hr : Rooted s.db s.history) (hs : Sound s)
    (hact : act cfg s l = some (s', answer)) : Rooted s'.db s'.history := by
  have hk := kept_act hs hact
  cases effect_act hs hact with
  | «local» _ hdb hhistory =>
    rw [hdb, hhistory]
    exact hr
  | used _ id row now _ hrow hrevoked hdb _ => exact rooted_use hr hs hk hrow hrevoked hdb
  | refreshed t c active now _ hdb hhistory =>
    have hrefreshed : Refreshed cfg s.db s.history c.id now _ _ := refreshed hs.lineages cfg active
    have hlinks := @refresh_links s.db c.id now cfg active
    generalize s.db.refresh cfg c.id active now = outcome at hrefreshed hlinks hdb hhistory
    obtain ⟨db', result⟩ := outcome
    dsimp only at hrefreshed hlinks hdb hhistory
    cases hrefreshed with
    | refused _ detail hquiet _ _ =>
      rcases hlinks with ⟨_, hok⟩ | hlinks
      · cases hok
      · rw [← hdb] at hquiet hlinks
        exact hr.quiet hs hk hquiet hlinks.tokens
    | rotated row hrow hrevoked => exact rooted_rotate hr hs hk hrow hrevoked hdb (hhistory ▸ rfl)
    | again token successorId successor hretry =>
      exact rooted_rotateAgain hr hs hk hretry hdb (hhistory ▸ rfl) (hhistory ▸ rfl)
  | signedIn device replaced now _ hdb hhistory =>
    exact rooted_login hr hs hk hdb (hhistory ▸ rfl)
  | loggedOut t id row now _ _ hused hdb _ =>
    have hlinks : KeepsLinks s.db s'.db := hdb ▸ keepsLinks_updateSession fun _ => rfl
    exact hr.quiet hs hk (hdb ▸ hs.lineages.quiet_logout hused now) hlinks.tokens
  | removed t device now revoked htxn hdb _ =>
    have hheld : RemovalHeld s t device revoked .done := hs.held t _ htxn
    have hlinks : KeepsLinks s.db s'.db := hdb ▸ keepsLinks_revokeAll revoked now
    exact hr.quiet hs hk (hdb ▸ hheld.quiet hs.lineages now) hlinks.tokens
  | pruned ids cutoff hdb _ =>
    exact hr.quiet hs hk (hdb ▸ hs.lineages.quiet_prune ids cutoff) (keepsTokens_prune hdb)

theorem rooted_initial : Rooted State.initial.db State.initial.history := fun _ hlive =>
  absurd hlive Bool.false_ne_true

/-- The rings are rooted in every state a run reaches. -/
theorem rooted_of_run {ls : List Label} (hrun : FreeRun (step cfg) State.initial ls s) :
    Sound s ∧ Rooted s.db s.history := by
  refine hrun.invariant (fun s => Sound s ∧ Rooted s.db s.history)
    ⟨Sound.initial, rooted_initial⟩ fun s l s' ⟨hs, hr⟩ _ hstep => ?_
  obtain ⟨⟨s', answer⟩, hact, rfl⟩ := Option.map_eq_some_iff.mp hstep
  exact ⟨hs.step hstep, rooted_act hr hs hact⟩

/-- **The sibling ring is well formed.** In every state a run of sign-ins, refreshes, first uses,
sign-outs, removals and prunes reaches, a live session that points at another is in a ring of at
most sixteen live sessions, unused, that one token was rotated into: each points at the next newer,
the newest at the oldest, and the token at the newest; and the links of any of them lead to them
all. -/
theorem sibling_ring_well_formed {ls : List Label}
    (hrun : FreeRun (step cfg) State.initial ls s) :
    ∀ x row, s.db.sessions.get x = some row → row.revokedAt = none →
      row.replacedBySessionId ≠ none →
        ∃ token ids, x ∈ ids ∧ SiblingRing s.db s.history token ids := by
  intro x row hrow hrevoked hpoints
  obtain ⟨hs, hr⟩ := rooted_of_run hrun
  have hlive : s.db.live x = true := Db.live_iff.mpr ⟨row, hrow, hrevoked⟩
  have hnext : s.db.next x ≠ none := by rwa [Db.next, hrow]
  obtain ⟨token, hring⟩ := hs.lineages.siblingRing hr hlive hnext
  exact ⟨token, _, hs.lineages.mem_siblings_self hlive, hring⟩

/-- A token is rotated twice. -/
def retryLabels : List Label :=
  [.login ⟨1, 1⟩ [] 0,
    .refresh 1 1, .lockMissing 1, .lockNext 1, .finishRefresh 1 true 1,
    .refresh 1 1, .lockMissing 1, .lockNext 1, .lockNext 1, .finishRefresh 1 true 2]

/-- It leaves a ring of two. -/
theorem sibling_ring_well_formed_of_retry :
    ∃ s, FreeRun (step ⟨1000, 10⟩) State.initial retryLabels s ∧
      ∃ token ids, 2 ∈ ids ∧ SiblingRing s.db s.history token ids := by
  have hrun : FreeRun (step ⟨1000, 10⟩) State.initial retryLabels _ := run_of_exec rfl
  exact ⟨_, hrun, sibling_ring_well_formed hrun 2 _ rfl rfl (Option.some_ne_none 3)⟩

end TigerDuck.Auth
