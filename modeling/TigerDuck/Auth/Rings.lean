import TigerDuck.Auth.Contests

/-!
# A token rotated again

A token whose newest rotation nothing has used yet is rotated again: the new session joins the
ring of those the token was rotated into, and the oldest beyond sixteen are superseded. The
lineage's live sessions are the newest rotations of the token, before and after
(`Lineages.rotateAgain`).
-/

namespace TigerDuck.Auth

open Relational

variable {db : Db} {h : History} {x y : SessionId} {now : Time}

/-- The newest of a list that has grown by one. -/
theorem newest_append (ids : List SessionId) (x : SessionId) :
    newest (newest ids ++ [x]) = newest (ids ++ [x]) := by
  unfold newest
  rw [List.length_append, List.length_append, List.length_drop, List.length_singleton]
  by_cases hle : ids.length ≤ UNUSED_SESSIONS_KEPT
  · rw [Nat.sub_eq_zero_of_le hle, List.drop_zero, Nat.sub_zero]
  · have hlt : UNUSED_SESSIONS_KEPT < ids.length := Nat.not_le.mp hle
    have hlen : ids.length - (ids.length - UNUSED_SESSIONS_KEPT) = UNUSED_SESSIONS_KEPT :=
      Nat.sub_sub_self (Nat.le_of_lt hlt)
    rw [hlen, Nat.add_sub_cancel_left, ← List.drop_append_of_le_length (Nat.sub_le _ _),
      List.drop_drop]
    congr 1
    omega

/-- A token that is rotated again, with its newest session. -/
structure Retry (db : Db) (h : History) (tokenId : SessionId) (token : AuthSession)
    (successorId : SessionId) (successor : AuthSession) : Prop where
  lineages : Lineages db h
  token_row : db.sessions.get tokenId = some token
  reason : token.revokedReason = some .rotated
  next : token.replacedBySessionId = some successorId
  successor_row : db.sessions.get successorId = some successor
  unrevoked : successor.revokedAt = none
  unused : successor.firstUsedAt = none

namespace Retry

variable {tokenId successorId : SessionId} {token successor : AuthSession}

/-- The live sessions of the token's lineage. -/
abbrev ring (db : Db) (h : History) (tokenId : SessionId) : List SessionId :=
  siblings db h.root (h.root tokenId)

/-- How many of them the new session drops. -/
abbrev dropped (db : Db) (h : History) (tokenId : SessionId) : Nat :=
  (ring db h tokenId).length + 1 - UNUSED_SESSIONS_KEPT

variable (r : Retry db h tokenId token successorId successor)

include r

theorem revoked : token.revokedAt ≠ none := fun hnone => by
  have hreason := r.lineages.unrevoked tokenId token r.token_row hnone
  rw [r.reason] at hreason
  cases hreason

theorem token_lt : tokenId < db.nextSession := r.lineages.bound _ _ r.token_row

theorem successor_lt : successorId < db.nextSession := r.lineages.bound _ _ r.successor_row

theorem successor_live : db.live successorId = true :=
  Db.live_iff.mpr ⟨successor, r.successor_row, r.unrevoked⟩

theorem token_dead : db.live tokenId = false := by
  rw [Bool.eq_false_iff]
  intro hlive
  obtain ⟨row, hrow, hnone⟩ := Db.live_iff.mp hlive
  obtain rfl := Option.some.inj (hrow.symm.trans r.token_row)
  exact r.revoked hnone

theorem ne : successorId ≠ tokenId := fun heq => by
  have hdead := r.token_dead
  rw [← heq, r.successor_live] at hdead
  cases hdead

theorem newest_eq : ring db h tokenId = newest (children db h.rotatedFrom tokenId) :=
  (r.lineages.newest _ _ _ _ r.token_row r.reason r.next r.successor_row r.unrevoked r.unused).1

theorem getLast_children : (children db h.rotatedFrom tokenId).getLast? = some successorId :=
  (r.lineages.newest _ _ _ _ r.token_row r.reason r.next r.successor_row r.unrevoked r.unused).2.1

theorem unused_child {child : SessionId} (hc : h.rotatedFrom child = some tokenId) :
    h.used child = false :=
  (r.lineages.newest _ _ _ _ r.token_row r.reason r.next r.successor_row r.unrevoked r.unused).2.2
    child hc

theorem root_successor : h.root successorId = h.root tokenId :=
  (r.lineages.next _ _ _ r.token_row r.next).2

theorem successor_mem : successorId ∈ ring db h tokenId := by
  have hmem := r.lineages.mem_siblings_self r.successor_live
  rwa [r.root_successor] at hmem

theorem length_pos : 0 < (ring db h tokenId).length := List.length_pos_of_mem r.successor_mem

theorem dropped_lt : dropped db h tokenId < (ring db h tokenId).length := by
  have hpos := r.length_pos
  have hkept : 1 < UNUSED_SESSIONS_KEPT := by decide
  unfold dropped
  omega

theorem getLast_ring : (ring db h tokenId).getLast? = some successorId := by
  rw [r.newest_eq, newest, List.getLast?_drop, if_neg, r.getLast_children]
  have hne : children db h.rotatedFrom tokenId ≠ [] := fun hnil => by
    have hlast := r.getLast_children
    rw [hnil] at hlast
    cases hlast
  have hpos := List.length_pos_iff.mpr hne
  have hkept : 0 < UNUSED_SESSIONS_KEPT := by decide
  omega

/-- The ring's sessions are live and unused. -/
theorem row_of_mem (hy : y ∈ ring db h tokenId) : ∃ row, db.sessions.get y = some row ∧
    row.revokedAt = none ∧ row.firstUsedAt = none := by
  obtain ⟨row, hrow, hrevoked⟩ := Db.live_iff.mp (mem_siblings.mp hy).2.1
  refine ⟨row, hrow, hrevoked, ?_⟩
  rw [r.newest_eq] at hy
  have hchild := (mem_children.mp (List.mem_of_mem_drop hy)).2
  have hused := r.lineages.used y row hrow
  rw [r.unused_child hchild] at hused
  simpa using hused.symm

/-- The rivals run through the ring in order. -/
theorem chain : (ring db h tokenId).IsChain fun a b => db.rival a = some b := by
  have hshape := r.lineages.shape (h.root tokenId)
  show (siblings db h.root (h.root tokenId)).IsChain _
  generalize siblings db h.root (h.root tokenId) = ids at hshape ⊢
  cases hshape with
  | ended => exact List.isChain_nil
  | settled x _ => exact List.isChain_singleton x
  | contested _ _ _ _ hring => exact hring.chain

/-- The new session points at the oldest of the ring: the newest's rival, or itself. -/
theorem head_ring : (ring db h tokenId).head? =
    some (successor.replacedBySessionId.getD successorId) := by
  have hshape := r.lineages.shape (h.root tokenId)
  have hlast := r.getLast_ring
  show (siblings db h.root (h.root tokenId)).head? = _
  change (siblings db h.root (h.root tokenId)).getLast? = _ at hlast
  generalize siblings db h.root (h.root tokenId) = ids at hshape hlast ⊢
  cases hshape with
  | ended => cases hlast
  | settled x hx =>
    obtain rfl : x = successorId := by simpa using hlast
    have hnone : successor.replacedBySessionId = none := by
      rw [Db.next, r.successor_row] at hx
      exact hx
    rw [hnone]
    rfl
  | contested _ hmin _ _ hring =>
    cases ids with
    | nil => cases hlast
    | cons head rest =>
      have hrival := hring.closes successorId hlast head rfl
      have hpoints : db.pointee successor = some head := by
        simpa [Db.rival, r.successor_row, r.unrevoked] using hrival
      rw [(Option.filter_eq_some_iff.mp hpoints).1]
      rfl

end Retry

/-! ### The rows after the rotation -/

section Rows

variable {tokenId successorId : SessionId} {token successor : AuthSession}

variable (r : Retry db h tokenId token successorId successor) (cfg : Settings) (now : Time)

include r

/-- The rows after `_rotate` of the token. -/
theorem Retry.get_rotate (k : SessionId) : (db.rotate cfg tokenId token now).1.sessions.get k =
    if k = db.nextSession then
      some (.insert token.userId token.deviceId (now + cfg.authRefreshTokenTtl) now)
    else if k = tokenId then some (token.replace db.nextSession now)
    else db.sessions.get k := by
  rw [Auth.get_rotate r.token_lt cfg token now db (by rw [if_neg fun hboth => r.revoked hboth.1]) rfl,
    r.token_row]
  rfl

/-- The rows once the new session and the newest so far are linked. -/
theorem Retry.get_linked (k : SessionId) :
    ((((db.rotate cfg tokenId token now).1.updateSession db.nextSession
      (·.link (some (successor.replacedBySessionId.getD successorId)))).updateSession successorId
      (·.link (some db.nextSession))).sessions.get k) =
    if k = db.nextSession then
      some ((AuthSession.insert token.userId token.deviceId (now + cfg.authRefreshTokenTtl) now).link
        (some (successor.replacedBySessionId.getD successorId)))
    else if k = tokenId then some (token.replace db.nextSession now)
    else if k = successorId then some (successor.link (some db.nextSession))
    else db.sessions.get k := by
  rw [Db.get_updateSession, Db.get_updateSession, r.get_rotate]
  by_cases hk : k = db.nextSession
  · have hne : db.nextSession ≠ successorId := Nat.ne_of_gt r.successor_lt
    subst hk
    simp [hne]
  · rw [if_neg hk, if_neg hk]
    by_cases hkt : k = tokenId
    · subst hkt
      simp [hk, Ne.symm r.ne]
    · rw [if_neg hkt, if_neg hkt]
      by_cases hks : k = successorId
      · subst hks
        simp [r.successor_row, hk]
      · rw [if_neg hks]
        cases db.sessions.get k <;> simp [hk, hks]

end Rows

section Ring

variable {db' : Db} {tokenId successorId : SessionId} {token successor token' new : AuthSession}
  {d : Nat}

/-- The rows of a rotation that drops the `d` oldest of the ring. -/
def rowsWith (db : Db) (h : History) (tokenId : SessionId) (token' : AuthSession)
    (successorId : SessionId) (successor new : AuthSession) (now : Time) (d : Nat)
    (k : SessionId) : Option AuthSession :=
  if k = db.nextSession then some (new.link ((Retry.ring db h tokenId).drop d).head?)
  else if k = tokenId then some token'
  else if k = successorId then some (successor.link (some db.nextSession))
  else if k ∈ (Retry.ring db h tokenId).take d then
    (db.sessions.get k).map (·.lose db.nextSession now)
  else db.sessions.get k

variable (r : Retry db h tokenId token successorId successor)
  (hget : ∀ k, db'.sessions.get k =
    rowsWith db h tokenId token' successorId successor new now d k)
  (hrevoked : new.revokedAt = none)

include r hget

omit r in
theorem Retry.get_new : db'.sessions.get db.nextSession =
    some (new.link ((Retry.ring db h tokenId).drop d).head?) := by
  rw [hget, rowsWith, if_pos rfl]

theorem Retry.get_successor : db'.sessions.get successorId =
    some (successor.link (some db.nextSession)) := by
  rw [hget, rowsWith, if_neg (Nat.ne_of_lt r.successor_lt), if_neg r.ne, if_pos rfl]

/-- What is kept of the ring keeps its rows, but for the newest. -/
theorem Retry.get_kept (hy : y ∈ (Retry.ring db h tokenId).drop d) (hne : y ≠ successorId) :
    db'.sessions.get y = db.sessions.get y := by
  have hmem : y ∈ Retry.ring db h tokenId := List.mem_of_mem_drop hy
  have hlive := (mem_siblings.mp hmem).2.1
  have htoken : y ≠ tokenId := fun heq => by
    rw [heq, r.token_dead] at hlive
    cases hlive
  have htake : y ∉ (Retry.ring db h tokenId).take d := fun htake => by
    have hnodup : (Retry.ring db h tokenId).Nodup := siblings_nodup h.root (h.root tokenId)
    exact (List.disjoint_take_drop hnodup (Nat.le_refl d)) htake hy
  rw [hget, rowsWith, if_neg (Nat.ne_of_lt (mem_siblings.mp hmem).1), if_neg htoken, if_neg hne,
    if_neg htake]

/-- No row is deleted. -/
theorem Retry.isSome_get (hy : y ≠ db.nextSession) :
    (db'.sessions.get y).isSome = (db.sessions.get y).isSome := by
  rw [hget, rowsWith, if_neg hy]
  by_cases htoken : y = tokenId
  · rw [if_pos htoken, htoken, r.token_row]
    rfl
  · rw [if_neg htoken]
    by_cases hsuccessor : y = successorId
    · rw [if_pos hsuccessor, hsuccessor, r.successor_row]
      rfl
    · rw [if_neg hsuccessor]
      split <;> simp

include hrevoked

/-- The kept sessions and the new one are a ring. -/
theorem Retry.isRing (hd : d < (Retry.ring db h tokenId).length) :
    IsRing db'.rival ((Retry.ring db h tokenId).drop d ++ [db.nextSession]) := by
  refine isRing_concat_drop r.chain r.getLast_ring (siblings_nodup _ _) hd ?_ (fun a ha hne => ?_)
    (fun b hb => ?_)
  · have hnew := Retry.get_new hget
    simp [Db.rival, Db.pointee, r.get_successor hget, AuthSession.link, r.unrevoked, hnew]
  · have hmem : a ∈ Retry.ring db h tokenId := List.mem_of_mem_drop ha
    obtain ⟨row, hrow, hnone, _⟩ := r.row_of_mem hmem
    have hrow' := (r.get_kept hget ha hne).trans hrow
    simp only [Db.rival, hrow, hrow', Option.bind_some, if_pos hnone, Db.pointee]
    cases hnext : row.replacedBySessionId with
    | none => rfl
    | some next =>
      have hlt := (r.lineages.next a row next hrow hnext).1
      rw [Option.filter_some, Option.filter_some, r.isSome_get hget (Nat.ne_of_lt hlt)]
  · have hmem : b ∈ Retry.ring db h tokenId := List.mem_of_mem_drop (List.mem_of_mem_head? hb)
    have hsome : (db'.sessions.get b).isSome = true := by
      rw [r.isSome_get hget (Nat.ne_of_lt (mem_siblings.mp hmem).1)]
      obtain ⟨row, hrow, _⟩ := r.row_of_mem hmem
      rw [hrow]
      rfl
    rw [Option.mem_def] at hb
    simp [Db.rival, Db.pointee, Retry.get_new hget, AuthSession.link, hrevoked, hb, hsome]

/-- The new session is linked to the kept ones and itself. -/
theorem Retry.sorted_linkedIds (hd : d < (Retry.ring db h tokenId).length) :
    Db.sorted (db'.linkedIds db.nextSession) =
      (Retry.ring db h tokenId).drop d ++ [db.nextSession] := by
  have hring := r.isRing hget hrevoked hd
  have hnew := Retry.get_new hget
  obtain ⟨head, hhead⟩ : ∃ head, ((Retry.ring db h tokenId).drop d).head? = some head :=
    Option.isSome_iff_exists.mp (by simpa using hd)
  have hmem : head ∈ (Retry.ring db h tokenId).drop d ++ [db.nextSession] :=
    List.mem_append_left _ (List.mem_of_mem_head? hhead)
  have hpoints : db'.pointee (new.link ((Retry.ring db h tokenId).drop d).head?) = some head := by
    have hself := hring.closes db.nextSession (by simp) head (by simp [hhead])
    simpa [Db.rival, hnew, AuthSession.link, hrevoked] using hself
  have hsorted : (Db.sorted (db'.linkedIds db.nextSession)).Pairwise (· < ·) := by
    have hnodup : (Db.sorted (db'.linkedIds db.nextSession)).Nodup :=
      (List.perm_insertionSort _ _).nodup_iff.mpr (linkedIds_nodup _)
    exact (List.sortedLE_insertionSort.sortedLT_of_nodup hnodup).pairwise
  have hascending : ((Retry.ring db h tokenId).drop d ++ [db.nextSession]).Pairwise (· < ·) := by
    refine List.pairwise_append.mpr
      ⟨(siblings_sorted _ _).sublist (List.drop_sublist _ _), List.pairwise_singleton _ _, ?_⟩
    intro a ha b hb
    obtain rfl := List.mem_singleton.mp hb
    exact (mem_siblings.mp (List.mem_of_mem_drop ha)).1
  refine eq_of_ascending hsorted hascending fun a => ?_
  rw [Db.sorted, List.mem_insertionSort, mem_linkedIds hnew, hpoints]
  constructor
  · rintro (rfl | ⟨_, hsome, hleads⟩)
    · simp
    · obtain rfl := Option.some.inj hsome
      exact (hring.leads_iff hmem).mp hleads
  · exact fun ha => Or.inr ⟨head, rfl, (hring.leads_iff hmem).mpr ha⟩

end Ring

section Again

variable {tokenId successorId : SessionId} {token successor : AuthSession}

variable (r : Retry db h tokenId token successorId successor) (cfg : Settings) (now : Time)

/-- The row the new session is inserted as. -/
abbrev AuthSession.successorOf (cfg : Settings) (token : AuthSession) (now : Time) : AuthSession :=
  .insert token.userId token.deviceId (now + cfg.authRefreshTokenTtl) now

include r

theorem Retry.not_mem_take (d : Nat) : tokenId ∉ (Retry.ring db h tokenId).take d := fun hmem => by
  have hlive := (mem_siblings.mp (List.mem_of_mem_take hmem)).2.1
  rw [r.token_dead] at hlive
  cases hlive

/-- The newest of the ring is not among those dropped. -/
theorem Retry.successor_not_mem_take {d : Nat} (hd : d < (Retry.ring db h tokenId).length) :
    successorId ∉ (Retry.ring db h tokenId).take d := fun hmem => by
  have hlast : successorId ∈ (Retry.ring db h tokenId).drop d := by
    refine List.mem_of_getLast? ?_
    rw [List.getLast?_drop, if_neg (Nat.not_le.mpr hd), r.getLast_ring]
  exact List.disjoint_take_drop (siblings_nodup _ _) (Nat.le_refl d) hmem hlast

omit r in
theorem Retry.new_not_mem_take (d : Nat) :
    db.nextSession ∉ (Retry.ring db h tokenId).take d := fun hmem =>
  absurd (mem_siblings.mp (List.mem_of_mem_take hmem)).1 (Nat.lt_irrefl _)

/-- Once the new session and the newest so far are linked, none of the ring is dropped yet. -/
theorem Retry.linked_eq (k : SessionId) :
    ((((db.rotate cfg tokenId token now).1.updateSession db.nextSession
      (·.link (some (successor.replacedBySessionId.getD successorId)))).updateSession successorId
      (·.link (some db.nextSession))).sessions.get k) =
    rowsWith db h tokenId (token.replace db.nextSession now) successorId successor
      (token.successorOf cfg now) now 0 k := by
  rw [r.get_linked, rowsWith, List.drop_zero, r.head_ring, List.take_zero]
  simp

/-- **The ring with its new session**, less the oldest beyond those kept. -/
theorem Retry.get_joinRing (k : SessionId) :
    ((db.rotate cfg tokenId token now).1.joinRing db.nextSession successorId successor
      now).sessions.get k =
    rowsWith db h tokenId (token.replace db.nextSession now) successorId successor
      (token.successorOf cfg now) now (Retry.dropped db h tokenId) k := by
  have hlinked := r.linked_eq cfg now
  have hsorted := r.sorted_linkedIds hlinked rfl r.length_pos
  have hd := r.dropped_lt
  rw [List.drop_zero] at hsorted
  unfold Db.joinRing
  dsimp only
  generalize hdb : ((db.rotate cfg tokenId token now).1.updateSession db.nextSession _).updateSession
    successorId _ = linked at hlinked hsorted ⊢
  rw [hsorted, List.length_append, List.length_singleton]
  show (if Retry.dropped db h tokenId = 0 then linked else _ : Db).sessions.get k = _
  by_cases hzero : Retry.dropped db h tokenId = 0
  · rw [if_pos hzero, hzero, hlinked]
  · rw [if_neg hzero, List.getElem?_append_left hd, List.take_append_of_le_length (Nat.le_of_lt hd),
      Db.get_supersede, Db.get_updateSession, hlinked, rowsWith, rowsWith, List.head?_drop]
    by_cases hk : k = db.nextSession
    · subst hk
      simp [Db.supersededRow, Retry.new_not_mem_take, AuthSession.link]
    · rw [if_neg hk, if_neg hk]
      by_cases htoken : k = tokenId
      · subst htoken
        simp [Db.supersededRow, r.not_mem_take, hk]
      · rw [if_neg htoken, if_neg htoken]
        by_cases hsuccessor : k = successorId
        · subst hsuccessor
          simp [Db.supersededRow, r.successor_not_mem_take hd, hk]
        · rw [if_neg hsuccessor, if_neg hsuccessor]
          by_cases hmem : k ∈ (Retry.ring db h tokenId).take (Retry.dropped db h tokenId)
          · -- A session of the ring is live and unused: the write takes it.
            obtain ⟨row, hrow, hrevoked, hunused⟩ := r.row_of_mem (List.mem_of_mem_take hmem)
            simp [Db.supersededRow, hmem, hk, hrow, hrevoked, hunused, AuthSession.lose]
          · rw [if_neg hmem]
            cases db.sessions.get k <;> simp [Db.supersededRow, hmem, hk]

theorem Retry.get_rotateAgain (k : SessionId) :
    (db.rotateAgain cfg tokenId token successorId successor now).1.sessions.get k =
    rowsWith db h tokenId { token.replace db.nextSession now with rerotatedAt := some now }
      successorId successor (token.successorOf cfg now) now (Retry.dropped db h tokenId) k := by
  show (((db.rotate cfg tokenId token now).1.joinRing db.nextSession successorId successor
    now).updateSession tokenId _).sessions.get k = _
  rw [Db.get_updateSession, r.get_joinRing, rowsWith, rowsWith]
  by_cases hk : k = db.nextSession
  · have hne : k ≠ tokenId := fun heq => Nat.lt_irrefl _ (heq ▸ hk ▸ r.token_lt)
    rw [if_pos hk, if_pos hk, Option.map_some, if_neg hne]
  · rw [if_neg hk, if_neg hk]
    by_cases htoken : k = tokenId
    · rw [if_pos htoken, if_pos htoken, Option.map_some, if_pos htoken]
    · rw [if_neg htoken, if_neg htoken]
      simp [htoken]

omit r in
theorem Retry.nextSession_rotateAgain :
    (db.rotateAgain cfg tokenId token successorId successor now).1.nextSession =
      db.nextSession + 1 := by
  have hjoin (rotated : Db) (newId : SessionId) :
      (rotated.joinRing newId successorId successor now).nextSession = rotated.nextSession := by
    unfold Db.joinRing
    dsimp only
    split <;> rfl
  unfold Db.rotateAgain
  dsimp only
  rw [Db.nextSession_updateSession, hjoin, nextSession_rotate]

/-- The row of a session after its token was rotated again. -/
inductive Retry.Row (db : Db) (h : History) (tokenId : SessionId) (token : AuthSession)
    (successorId : SessionId) (successor new : AuthSession) (now : Time) (k : SessionId) :
    AuthSession → Prop
  | new : k = db.nextSession → Row db h tokenId token successorId successor new now k
      (new.link ((Retry.ring db h tokenId).drop (Retry.dropped db h tokenId)).head?)
  | token : k = tokenId → Row db h tokenId token successorId successor new now k
      { token.replace db.nextSession now with rerotatedAt := some now }
  | successor : k = successorId → Row db h tokenId token successorId successor new now k
      (successor.link (some db.nextSession))
  | dropped (row : AuthSession) :
      k ∈ (Retry.ring db h tokenId).take (Retry.dropped db h tokenId) →
      db.sessions.get k = some row → row.revokedAt = none → row.firstUsedAt = none →
      Row db h tokenId token successorId successor new now k (row.lose db.nextSession now)
  | same (row : AuthSession) : k ≠ tokenId →
      k ∉ (Retry.ring db h tokenId).take (Retry.dropped db h tokenId) →
      db.sessions.get k = some row →
      Row db h tokenId token successorId successor new now k row

theorem Retry.row_of_rotateAgain {k : SessionId} {row' : AuthSession}
    (hrow' : (db.rotateAgain cfg tokenId token successorId successor now).1.sessions.get k =
      some row') :
    Retry.Row db h tokenId token successorId successor (token.successorOf cfg now) now k row' := by
  rw [r.get_rotateAgain, rowsWith] at hrow'
  by_cases hk : k = db.nextSession
  · rw [if_pos hk] at hrow'
    exact Option.some.inj hrow' ▸ .new hk
  · rw [if_neg hk] at hrow'
    by_cases htoken : k = tokenId
    · rw [if_pos htoken] at hrow'
      exact Option.some.inj hrow' ▸ .token htoken
    · rw [if_neg htoken] at hrow'
      by_cases hsuccessor : k = successorId
      · rw [if_pos hsuccessor] at hrow'
        exact Option.some.inj hrow' ▸ .successor hsuccessor
      · rw [if_neg hsuccessor] at hrow'
        by_cases hmem : k ∈ (Retry.ring db h tokenId).take (Retry.dropped db h tokenId)
        · rw [if_pos hmem] at hrow'
          obtain ⟨row, hrow, hrevoked, hunused⟩ := r.row_of_mem (List.mem_of_mem_take hmem)
          rw [hrow] at hrow'
          exact Option.some.inj hrow' ▸ .dropped row hmem hrow hrevoked hunused
        · rw [if_neg hmem] at hrow'
          exact .same row' htoken hmem hrow'

/-- A session that is live and not the new one was live before, unused if it is. -/
theorem Retry.live_before {k : SessionId} {row' : AuthSession}
    (hrow' : (db.rotateAgain cfg tokenId token successorId successor now).1.sessions.get k =
      some row') (hrevoked : row'.revokedAt = none) (hk : k ≠ db.nextSession) :
    k ∉ (Retry.ring db h tokenId).take (Retry.dropped db h tokenId) ∧
      ∃ row, db.sessions.get k = some row ∧ row.revokedAt = none ∧
        row'.firstUsedAt = row.firstUsedAt := by
  cases r.row_of_rotateAgain cfg now hrow' with
  | new heq => exact absurd heq hk
  | token _ => cases hrevoked
  | successor heq =>
    subst heq
    exact ⟨r.successor_not_mem_take r.dropped_lt, successor, r.successor_row, hrevoked, rfl⟩
  | dropped row _ _ _ _ => cases hrevoked
  | same row _ hmem hrow => exact ⟨hmem, row', hrow, hrevoked, rfl⟩

/-- The live sessions of the lineage are those kept and the new one. -/
theorem Retry.siblings_rotateAgain :
    siblings (db.rotateAgain cfg tokenId token successorId successor now).1
      (h.rotate tokenId db.nextSession).root (h.root tokenId) =
    (Retry.ring db h tokenId).drop (Retry.dropped db h tokenId) ++ [db.nextSession] := by
  have hget := r.get_rotateAgain cfg now
  have hn : (db.rotateAgain cfg tokenId token successorId successor now).1.nextSession =
      db.nextSession + 1 := Retry.nextSession_rotateAgain cfg now
  have hascending : ((Retry.ring db h tokenId).drop (Retry.dropped db h tokenId) ++
      [db.nextSession]).Pairwise (· < ·) := by
    refine List.pairwise_append.mpr
      ⟨(siblings_sorted _ _).sublist (List.drop_sublist _ _), List.pairwise_singleton _ _, ?_⟩
    intro a ha b hb
    obtain rfl := List.mem_singleton.mp hb
    exact (mem_siblings.mp (List.mem_of_mem_drop ha)).1
  refine eq_of_ascending (siblings_sorted _ _) hascending fun k => ?_
  rw [mem_siblings, List.mem_append, List.mem_singleton, hn, rotate_root]
  constructor
  · rintro ⟨_, hlive, hroot⟩
    refine or_iff_not_imp_right.mpr fun hk => ?_
    rw [if_neg hk] at hroot
    obtain ⟨row', hrow', hrevoked'⟩ := Db.live_iff.mp hlive
    obtain ⟨htake, row, hrow, hrevoked, _⟩ := r.live_before cfg now hrow' hrevoked' hk
    have hmem : k ∈ Retry.ring db h tokenId := mem_siblings.mpr
      ⟨r.lineages.bound k row hrow, Db.live_iff.mpr ⟨row, hrow, hrevoked⟩, hroot⟩
    rw [← List.take_append_drop (Retry.dropped db h tokenId) (Retry.ring db h tokenId),
      List.mem_append] at hmem
    exact hmem.resolve_left htake
  · rintro (hmem | rfl)
    · obtain ⟨hlt, hlive, hroot⟩ := mem_siblings.mp (List.mem_of_mem_drop hmem)
      refine ⟨Nat.lt_succ_of_lt hlt, ?_, by rwa [if_neg (Nat.ne_of_lt hlt)]⟩
      by_cases hk : k = successorId
      · subst hk
        exact Db.live_iff.mpr ⟨_, r.get_successor hget, r.unrevoked⟩
      · obtain ⟨row, hrow, hrevoked⟩ := Db.live_iff.mp hlive
        exact Db.live_iff.mpr ⟨row, (r.get_kept hget hmem hk).trans hrow, hrevoked⟩
    · exact ⟨Nat.lt_succ_self _, Db.live_iff.mpr ⟨_, Retry.get_new hget, rfl⟩, if_pos rfl⟩

/-- A token rotated again adds one session to its lineage. -/
theorem Retry.births_rotateAgain :
    Births db (db.rotateAgain cfg tokenId token successorId successor now).1 h
      (h.rotate tokenId db.nextSession) (h.root tokenId) :=
  .rotate r.lineages r.token_lt (Retry.nextSession_rotateAgain cfg now)

/-- What each row of the lineage is then: the token and the rivals point at the new session, which
points into the ring. -/
theorem Retry.turned_rotateAgain {k : SessionId} {row' : AuthSession}
    (hk : (h.rotate tokenId db.nextSession).root k = h.root tokenId)
    (hrow' : (db.rotateAgain cfg tokenId token successorId successor now).1.sessions.get k =
      some row') :
    Turned (db.rotateAgain cfg tokenId token successorId successor now).1 h
      (h.rotate tokenId db.nextSession) (h.root tokenId) token.deviceId k row' := by
  have hl := r.lineages
  have hn : (db.rotateAgain cfg tokenId token successorId successor now).1.nextSession =
      db.nextSession + 1 := Retry.nextSession_rotateAgain cfg now
  have hlt : ∀ {y}, y < db.nextSession →
      y < (db.rotateAgain cfg tokenId token successorId successor now).1.nextSession := fun h =>
    hn ▸ Nat.lt_succ_of_lt h
  -- The new session, at which all but itself point.
  have hnext : ∀ next, some db.nextSession = some next →
      next < (db.rotateAgain cfg tokenId token successorId successor now).1.nextSession ∧
        (h.rotate tokenId db.nextSession).root next = h.root tokenId := by
    intro next heq
    obtain rfl := Option.some.inj heq
    exact ⟨hn ▸ Nat.lt_succ_self _, by rw [rotate_root, if_pos rfl]⟩
  cases r.row_of_rotateAgain cfg now hrow' with
  | new heq =>
    obtain ⟨_, hunused, hkept⟩ := hl.fresh _ (Nat.le_refl db.nextSession)
    exact {
      bound := heq ▸ hn ▸ Nat.lt_succ_self _
      next := fun next hhead => by
        obtain ⟨hold, _, hroot⟩ :=
          mem_siblings.mp (List.mem_of_mem_drop (List.mem_of_mem_head? hhead))
        exact ⟨hlt hold, by rw [rotate_root, if_neg (Nat.ne_of_lt hold), hroot]⟩
      used := fun hu => by cases hunused.symm.trans (heq ▸ hu)
      superseded := fun hs => by cases hkept.symm.trans (heq ▸ hs)
      supersededUnused := fun _ => rfl
      unrevoked := fun _ => rfl
      sameDevice := rfl
      rotated := fun _ h _ => by cases h }
  | token heq =>
    subst heq
    exact {
      bound := hlt r.token_lt
      next := hnext
      used := fun _ => by
        cases hfirst : token.firstUsedAt <;>
          simp [AuthSession.replace, AuthSession.use, AuthSession.link, AuthSession.revoke, hfirst]
      superseded := fun hs => by
        -- The token was rotated, so it was not superseded.
        rw [hl.superseded k token r.token_row, r.reason] at hs
        cases hs
      supersededUnused := fun h => by cases h
      unrevoked := fun h => by cases h
      sameDevice := rfl
      rotated := fun next _ heq => by
        obtain rfl := Option.some.inj heq
        rw [rotate_rotatedFrom, if_pos rfl] }
  | successor heq =>
    subst heq
    have hreason := hl.unrevoked k successor r.successor_row r.unrevoked
    exact {
      bound := hlt r.successor_lt
      next := hnext
      used := fun hu => (hl.used k successor r.successor_row).symm.trans hu
      superseded := (hl.superseded k successor r.successor_row).mp
      supersededUnused := fun _ => r.unused
      unrevoked := fun _ => hreason
      sameDevice := hl.sameDevice k tokenId successor token r.successor_row r.token_row
        r.root_successor
      rotated := fun _ h _ => by cases hreason.symm.trans h }
  | dropped row hmem hrowk _ hunused =>
    have hroot := (mem_siblings.mp (List.mem_of_mem_take hmem)).2.2
    exact {
      bound := hlt (hl.bound k row hrowk)
      next := hnext
      used := fun hu => (hl.used k row hrowk).symm.trans hu
      superseded := fun _ => rfl
      supersededUnused := fun _ => hunused
      unrevoked := fun h => by cases h
      sameDevice := hl.sameDevice k tokenId row token hrowk r.token_row hroot
      rotated := fun _ h _ => by cases h }
  | same _ _ _ hrowk =>
    exact .same hl (r.births_rotateAgain cfg now) hrowk r.token_row hk

/-- No token that was rotated is live then. -/
theorem Retry.childless_rotateAgain {k parent : SessionId}
    (hparent : (h.rotate tokenId db.nextSession).rotatedFrom k = some parent) :
    (db.rotateAgain cfg tokenId token successorId successor now).1.live parent = false := by
  have hl := r.lineages
  rw [Bool.eq_false_iff]
  intro hlive
  obtain ⟨row', hrow', hrevoked'⟩ := Db.live_iff.mp hlive
  -- It was dead before, and the rotation brings no session back.
  have hbefore : parent < db.nextSession ∧ db.live parent = false := by
    rw [rotate_rotatedFrom] at hparent
    split at hparent
    next => exact Option.some.inj hparent ▸ ⟨r.token_lt, r.token_dead⟩
    next => exact ⟨hl.lt_of_parent hparent, hl.childless k parent hparent⟩
  obtain ⟨hlt, hdead⟩ := hbefore
  obtain ⟨_, row, hrow, hnone, _⟩ := r.live_before cfg now hrow' hrevoked' (Nat.ne_of_lt hlt)
  rw [Db.live_iff.mpr ⟨row, hrow, hnone⟩] at hdead
  cases hdead

/-- The lineage's live sessions are a ring of at most sixteen then. -/
theorem Retry.shape_rotateAgain :
    Shape (db.rotateAgain cfg tokenId token successorId successor now).1
      (siblings (db.rotateAgain cfg tokenId token successorId successor now).1
        (h.rotate tokenId db.nextSession).root (h.root tokenId)) := by
  have hget := r.get_rotateAgain cfg now
  have hpos := r.length_pos
  have hd := r.dropped_lt
  have hisUsed : ∀ {k row'},
      (db.rotateAgain cfg tokenId token successorId successor now).1.sessions.get k = some row' →
      (db.rotateAgain cfg tokenId token successorId successor now).1.isUsed k =
        row'.firstUsedAt.isSome := fun hrow' => by
    rw [Db.isUsed, hrow']
    rfl
  rw [r.siblings_rotateAgain cfg now]
  refine Shape.contested _ ?_ ?_ (fun y hy => ?_) (r.isRing hget rfl hd)
  · rw [List.length_append, List.length_drop, List.length_singleton]
    omega
  · rw [List.length_append, List.length_drop, List.length_singleton]
    have hdropped : Retry.dropped db h tokenId =
      (Retry.ring db h tokenId).length + 1 - UNUSED_SESSIONS_KEPT := rfl
    omega
  · rw [List.mem_append, List.mem_singleton] at hy
    rcases hy with hy | rfl
    · obtain ⟨row, hrowy, _, hunused⟩ := r.row_of_mem (List.mem_of_mem_drop hy)
      by_cases hk : y = successorId
      · subst hk
        exact (hisUsed (r.get_successor hget)).trans (Option.isSome_eq_false_iff.mpr
          (Option.isNone_iff_eq_none.mpr r.unused))
      · exact (hisUsed ((r.get_kept hget hy hk).trans hrowy)).trans (by rw [hunused]; rfl)
    · exact hisUsed (Retry.get_new hget)

/-- The sessions that stay live and the new one are the newest rotations of the token. -/
theorem Retry.newest_rotateAgain {k next : SessionId} {row' row'' : AuthSession}
    (hk : (h.rotate tokenId db.nextSession).root k = h.root tokenId)
    (hrow' : (db.rotateAgain cfg tokenId token successorId successor now).1.sessions.get k =
      some row') (hreason : row'.revokedReason = some .rotated)
    (hnext : row'.replacedBySessionId = some next)
    (hrow'' : (db.rotateAgain cfg tokenId token successorId successor now).1.sessions.get next =
      some row'') (hrevoked'' : row''.revokedAt = none) :
    let db' := (db.rotateAgain cfg tokenId token successorId successor now).1
    siblings db' (h.rotate tokenId db.nextSession).root (h.root tokenId) =
        newest (children db' (h.rotate tokenId db.nextSession).rotatedFrom k) ∧
      (children db' (h.rotate tokenId db.nextSession).rotatedFrom k).getLast? = some next ∧
      ∀ child, (h.rotate tokenId db.nextSession).rotatedFrom child = some k →
        ((h.rotate tokenId db.nextSession).observe db').used child = false := by
  intro db'
  have hl := r.lineages
  have hget := r.get_rotateAgain cfg now
  have hn : db'.nextSession = db.nextSession + 1 := Retry.nextSession_rotateAgain cfg now
  have hroot := rotate_root h tokenId db.nextSession
  have hfrom := rotate_rotatedFrom h tokenId db.nextSession
  have hrow : ∀ {k row'}, db'.sessions.get k = some row' → _ := fun hrow' =>
    r.row_of_rotateAgain cfg now hrow'
  have hsiblings := r.siblings_rotateAgain cfg now
  have hchildren := children_rotate h hn tokenId
  have hd := r.dropped_lt
  cases hrow hrow' with
  | new _ => cases hreason
  | token heq =>
    subst heq
    obtain rfl := Option.some.inj hnext
    rw [hchildren, if_pos rfl]
    refine ⟨?_, by rw [List.getLast?_append]; rfl, fun c hc => ?_⟩
    · -- The kept sessions and the new one are the newest rotations of the token.
      show siblings (db.rotateAgain cfg k token successorId successor now).1 _ _ = _
      rw [hsiblings, ← newest_append, ← r.newest_eq, newest, List.length_append,
        List.length_singleton, List.drop_append_of_le_length (Nat.le_of_lt hd)]
    · show (h.used c || (db'.sessions.get c).any (·.firstUsedAt.isSome)) = false
      by_cases hcn : c = db.nextSession
      · rw [hcn, (hl.fresh _ (Nat.le_refl _)).2.1]
        show (false || ((db.rotateAgain cfg k token successorId successor
          now).1.sessions.get _).any _) = false
        rw [Retry.get_new hget]
        rfl
      · rw [hfrom, if_neg hcn] at hc
        have hunusedc := r.unused_child hc
        have hck : c ≠ k := fun heq => Nat.lt_irrefl _ (heq ▸ (hl.child c k hc).1)
        rw [hunusedc, Bool.false_or]
        cases hrowc : db'.sessions.get c with
        | none => rfl
        | some rowc =>
          show rowc.firstUsedAt.isSome = false
          cases hrow hrowc with
          | new heq => exact absurd heq hcn
          | token heq => exact absurd heq hck
          | successor _ => exact Option.isSome_eq_false_iff.mpr (by simp [AuthSession.link, r.unused])
          | dropped row _ _ _ hunused =>
            exact Option.isSome_eq_false_iff.mpr (by simp [AuthSession.lose, AuthSession.revoke,
              AuthSession.link, hunused])
          | same _ _ _ hrowk => rw [← hl.used c rowc hrowk, hunusedc]
  | successor _ =>
    have hnone := hl.unrevoked successorId successor r.successor_row r.unrevoked
    exact absurd (hnone.symm.trans hreason) (Option.some_ne_none _).symm
  | dropped _ _ _ _ _ => cases hreason
  | same _ htoken _ hrowk =>
    -- Another token's newest session would be the newest of the ring, which the token left.
    exfalso
    have hne : next ≠ db.nextSession := Nat.ne_of_lt (hl.next k row' next hrowk hnext).1
    obtain ⟨_, row, hrown, hrevoked, hfirst⟩ := r.live_before cfg now hrow'' hrevoked'' hne
    have hlive : db.live next = true := Db.live_iff.mpr ⟨row, hrown, hrevoked⟩
    have hrootn := (hl.next k row' next hrowk hnext).2
    rw [hroot, if_neg (Nat.ne_of_lt (hl.bound k row' hrowk))] at hk
    have hmem : next ∈ Retry.ring db h tokenId := mem_siblings.mpr
      ⟨hl.bound next row hrown, hlive, hrootn.trans hk⟩
    rw [r.newest_eq] at hmem
    have hchild := (mem_children.mp (List.mem_of_mem_drop hmem)).2
    rw [hl.rotated k row' next hrowk hreason hnext] at hchild
    exact htoken (Option.some.inj hchild)

/-- **A token rotated again**: its newest rotations are the live sessions of the lineage. -/
theorem Retry.lineages_rotateAgain :
    let db' := (db.rotateAgain cfg tokenId token successorId successor now).1
    Lineages db' ((h.rotate tokenId db.nextSession).observe db') := by
  intro db'
  have hget := r.get_rotateAgain cfg now
  have hroot := rotate_root h tokenId db.nextSession
  have hring : ∀ k ∈ Retry.ring db h tokenId, h.root k = h.root tokenId := fun k hk =>
    (mem_siblings.mp hk).2.2
  refine r.lineages.turnover ((r.births_rotateAgain cfg now).turnover token.deviceId
    (fun k hk => ?_) (fun k row' => r.turned_rotateAgain cfg now)
    (fun k parent _ => r.childless_rotateAgain cfg now) (r.shape_rotateAgain cfg now)
    fun k row' next row'' hk hrow' hreason hnext hrow'' hrevoked'' _ =>
      r.newest_rotateAgain cfg now hk hrow' hreason hnext hrow'' hrevoked'')
  have hnew : k ≠ db.nextSession := fun heq => hk (by rw [hroot, if_pos heq])
  rw [hroot, if_neg hnew] at hk
  have htake : k ∉ (Retry.ring db h tokenId).take (Retry.dropped db h tokenId) := fun hmem =>
    hk (hring k (List.mem_of_mem_take hmem))
  show (db.rotateAgain cfg tokenId token successorId successor now).1.sessions.get k = _
  have htoken : k ≠ tokenId := fun heq => hk (by rw [heq])
  have hsuccessor : k ≠ successorId := fun heq => hk (heq ▸ r.root_successor)
  rw [hget, rowsWith, if_neg hnew, if_neg htoken, if_neg hsuccessor, if_neg htake]

end Again

end TigerDuck.Auth
